/-
# Handles

`HandleMgr` (`handle_mgr.h`) hands out slots: the slot given out is the lowest
one that is free.  Its Judy1 array is a finite set of numbers here.

A 32-bit entry handle packs the slot of a match entry (low 24 bits) with the low
8 bits of the version of that slot; the three functions are the macros at the head
of `match_units.cpp`.
-/
import Bmv2.Lib.FreeSlots

namespace Bm

/-- The slots in use. -/
abbrev HandleMgr := Finset ℕ

namespace HandleMgr

/-- `HandleMgr::get_handle`: takes the lowest free slot; it fails when that slot
is no 64-bit number. -/
def getHandle (handles : HandleMgr) : Option (ℕ × HandleMgr) :=
  if lowestFree handles < 2 ^ 64 then
    some (lowestFree handles, insert (lowestFree handles) handles)
  else none

/-- `HandleMgr::release_handle`: fails when the slot is not in use. -/
def releaseHandle (handles : HandleMgr) (handle : ℕ) : Option HandleMgr :=
  if handle ∈ handles then some (handles.erase handle) else none

theorem getHandle_eq_some {handles handles' : HandleMgr} {handle : ℕ} :
    handles.getHandle = some (handle, handles') ↔
      lowestFree handles < 2 ^ 64 ∧ handle = lowestFree handles ∧
        handles' = insert handle handles := by
  unfold getHandle
  split <;> rename_i hfree
  · simp only [Option.some.injEq, Prod.mk.injEq, hfree, true_and]
    constructor <;> rintro ⟨rfl, rfl⟩ <;> exact ⟨rfl, rfl⟩
  · simp only [hfree, false_and, reduceCtorEq]

end HandleMgr

/-! ## Entry handles -/

/-- `HANDLE_VERSION(h)`. -/
def handleVersion (h : ℕ) : ℕ := h >>> 24

/-- `HANDLE_INTERNAL(h)`. -/
def handleInternal (h : ℕ) : ℕ := h &&& 0x00ffffff

/-- `HANDLE_SET(v, i)`, stored in an `entry_handle_t` of 32 bits. -/
def handleSet (v i : ℕ) : ℕ := (((v &&& 0xff) <<< 24) ||| i) % 2 ^ 32

/-- A slot of 24 bits is packed without overlap. -/
theorem handleSet_eq {v i : ℕ} (hi : i < 2 ^ 24) : handleSet v i = 2 ^ 24 * (v % 256) + i := by
  have hand : v &&& 0xff = v % 256 := Nat.and_two_pow_sub_one_eq_mod v 8
  rw [handleSet, hand, ← Nat.shiftLeft_add_eq_or_of_lt hi, Nat.shiftLeft_eq]
  omega

theorem handleInternal_eq_mod (h : ℕ) : handleInternal h = h % 2 ^ 24 :=
  Nat.and_two_pow_sub_one_eq_mod h 24

theorem handleInternal_lt (h : ℕ) : handleInternal h < 2 ^ 24 := by
  rw [handleInternal_eq_mod]
  omega

theorem handleVersion_eq_div (h : ℕ) : handleVersion h = h / 2 ^ 24 := Nat.shiftRight_eq_div_pow h 24

/-- The slot is read back from a packed handle. -/
theorem handleInternal_handleSet {v i : ℕ} (hi : i < 2 ^ 24) :
    handleInternal (handleSet v i) = i := by
  rw [handleInternal_eq_mod, handleSet_eq hi]
  omega

/-- Only the low 8 bits of the version are read back. -/
theorem handleVersion_handleSet {v i : ℕ} (hi : i < 2 ^ 24) :
    handleVersion (handleSet v i) = v % 256 := by
  rw [handleVersion_eq_div, handleSet_eq hi]
  omega

/-! ## Return codes -/

/-- `MatchErrorCode`: the codes that match units and match tables return. -/
inductive MatchErrorCode where
  | success
  | tableFull
  | invalidHandle
  | expiredHandle
  | countersDisabled
  | metersDisabled
  | ageingDisabled
  | invalidMbrHandle
  | mbrStillUsed
  | mbrAlreadyInGrp
  | mbrNotInGrp
  | invalidGrpHandle
  | grpStillUsed
  | emptyGrp
  | duplicateEntry
  | badMatchKey
  | defaultActionIsConst
  | defaultEntryIsConst
  | error
  deriving DecidableEq, Repr

end Bm

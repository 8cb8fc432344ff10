/-
# State dumps

`SwitchWContexts::serialize` and `deserialize` (`switch.cpp`).  A dump starts with a version and
with the digest of the configuration, 16 raw bytes that are read back as a word.  The tables and
the meter arrays, which write and read the rest of the stream, are given here.

* `deserialize_serialize`: what happens to a dump in any switch;
* `accepted_iff`: when a dump is accepted with the same configuration, and refused with another.
-/
import Bmv2.Lib.Bytes
import Bmv2.Lib.Words

namespace Bm

/-- `isspace`, in the locale of C. -/
def isSpace (b : Byte) : Bool := b = 0x20 || (0x09 ≤ b && b ≤ 0x0d)

/-- The digest of a configuration. -/
abbrev Digest := { d : List Byte // d.length = 16 }

/-- `serialization_format_version_str`. -/
def serializationFormatVersionStr : List Byte :=
  [0x30, 0x36, 0x30, 0x36, 0x32, 0x30, 0x31, 0x36, 0x5f, 0x30]

/-- The line feed. -/
def lineFeed : Byte := 0x0a

/-- What the objects of a context write and read, and the digest. -/
structure DumpEnv (Table MeterArray : Type) where
  md5 : List Byte → Digest
  serializeTable : Table → List Byte
  deserializeTable : Table → List Byte → Option (Table × List Byte)
  serializeMeters : MeterArray → List Byte
  deserializeMeters : MeterArray → List Byte → Option (MeterArray × List Byte)

/-- A context: its tables and its meter arrays, in the order of the maps of `P4Objects`. -/
structure DumpContext (Table MeterArray : Type) where
  tables : List Table
  meterArrays : List MeterArray

/-- `SwitchWContexts`. -/
structure DumpSwitch (Table MeterArray : Type) where
  currentConfig : List Byte
  contexts : List (DumpContext Table MeterArray)

/-- Objects are read one after the other; `none` when one of them ends the process. -/
def readAll {T : Type} (read : T → List Byte → Option (T × List Byte)) :
    List T → List Byte → Option (List T × List Byte)
  | [], input => some ([], input)
  | t :: ts, input => do
    let (t, input) ← read t input
    let (ts, input) ← readAll read ts input
    return (t :: ts, input)

namespace DumpEnv

variable {Table MeterArray : Type} (env : DumpEnv Table MeterArray)

/-- `Context::serialize`. -/
def serializeContext (cxt : DumpContext Table MeterArray) : List Byte :=
  cxt.tables.flatMap env.serializeTable ++ cxt.meterArrays.flatMap env.serializeMeters

/-- `Context::deserialize`. -/
def deserializeContext (cxt : DumpContext Table MeterArray) (input : List Byte) :
    Option (DumpContext Table MeterArray × List Byte) := do
  let (tables, input) ← readAll env.deserializeTable cxt.tables input
  let (meterArrays, input) ← readAll env.deserializeMeters cxt.meterArrays input
  return (⟨tables, meterArrays⟩, input)

/-- `get_config_md5`. -/
def configMd5 (s : DumpSwitch Table MeterArray) : List Byte := (env.md5 s.currentConfig).val

/-- What follows the digest in a dump. -/
def body (s : DumpSwitch Table MeterArray) : List Byte := s.contexts.flatMap env.serializeContext

/-- `serialize`, which always succeeds. -/
def serialize (s : DumpSwitch Table MeterArray) : List Byte :=
  serializationFormatVersionStr ++ lineFeed :: (env.configMd5 s ++ lineFeed :: env.body s)

/-- `deserialize`: the return code, the switch and the rest of the stream. -/
def deserialize (s : DumpSwitch Table MeterArray) (input : List Byte) :
    Option (ℕ × DumpSwitch Table MeterArray × List Byte) :=
  let md5sumExpected := env.configMd5 s
  let (versionStr, input) := readWord isSpace input
  if versionStr ≠ serializationFormatVersionStr then some (1, s, input)
  else
    let (md5sum, input) := readWord isSpace input
    if md5sum ≠ md5sumExpected then some (1, s, input)
    else (readAll env.deserializeContext s.contexts input).map fun (contexts, input) =>
      (0, { s with contexts }, input)

variable {env}

theorem isSpace_lineFeed : isSpace lineFeed = true := by decide

theorem isSpace_version : ∀ b ∈ serializationFormatVersionStr, isSpace b = false := by decide

theorem configMd5_ne_nil (s : DumpSwitch Table MeterArray) : env.configMd5 s ≠ [] := by
  intro hnil
  have hlength := (env.md5 s.currentConfig).property
  rw [show (env.md5 s.currentConfig).val = [] from hnil] at hlength
  cases hlength

/-- The words of the header of a dump: the version comes back, then a word that starts behind it. -/
theorem deserialize_serialize (t s : DumpSwitch Table MeterArray) :
    env.deserialize t (env.serialize s) =
      if (readWord isSpace (env.configMd5 s ++ lineFeed :: env.body s)).1 ≠ env.configMd5 t then
        some (1, t, (readWord isSpace (env.configMd5 s ++ lineFeed :: env.body s)).2)
      else (readAll env.deserializeContext t.contexts
          (readWord isSpace (env.configMd5 s ++ lineFeed :: env.body s)).2).map
        fun (contexts, input) => (0, { t with contexts }, input) := by
  have hversion : readWord isSpace (env.serialize s) = (serializationFormatVersionStr,
      lineFeed :: (env.configMd5 s ++ lineFeed :: env.body s)) :=
    readWord_append isSpace_version (by decide) isSpace_lineFeed _
  have hskip : readWord isSpace (lineFeed :: (env.configMd5 s ++ lineFeed :: env.body s)) =
      readWord isSpace (env.configMd5 s ++ lineFeed :: env.body s) := by
    refine readWord_spaces [lineFeed] fun b hb => ?_
    rw [List.mem_singleton.mp hb]
    exact isSpace_lineFeed
  rw [deserialize]
  simp only [hversion, hskip]
  rw [if_neg (not_not.mpr rfl)]

/-- The dump is accepted: the contexts read the stream right behind the digest, and succeed. -/
def Accepted (env : DumpEnv Table MeterArray) (t s : DumpSwitch Table MeterArray) : Prop :=
  ∃ contexts rest, readAll env.deserializeContext t.contexts (lineFeed :: env.body s) =
      some (contexts, rest) ∧
    env.deserialize t (env.serialize s) = some (0, { t with contexts }, rest)

/-- The dump is refused, and the switch is as before. -/
def Refused (env : DumpEnv Table MeterArray) (t s : DumpSwitch Table MeterArray) : Prop :=
  ∃ rest, env.deserialize t (env.serialize s) = some (1, t, rest)

/-- The contexts read their part of the dump. -/
def Restores (env : DumpEnv Table MeterArray) (t s : DumpSwitch Table MeterArray) : Prop :=
  (readAll env.deserializeContext t.contexts (lineFeed :: env.body s)).isSome

theorem accepted_of_same {t s : DumpSwitch Table MeterArray}
    (hsame : env.configMd5 t = env.configMd5 s) :
    env.Accepted t s ↔ (∀ b ∈ env.configMd5 s, isSpace b = false) ∧ env.Restores t s := by
  constructor
  · rintro ⟨contexts, rest, hread, heq⟩
    refine ⟨?_, Option.isSome_iff_exists.mpr ⟨_, hread⟩⟩
    rw [deserialize_serialize, hsame] at heq
    by_contra hspace
    rw [if_pos] at heq
    · cases heq
    · rw [Ne, readWord_eq_iff (configMd5_ne_nil s) isSpace_lineFeed]
      exact hspace
  · rintro ⟨hword, hrestores⟩
    obtain ⟨⟨contexts, rest⟩, hread⟩ := Option.isSome_iff_exists.mp hrestores
    refine ⟨contexts, rest, hread, ?_⟩
    rw [deserialize_serialize, readWord_append hword (configMd5_ne_nil s) isSpace_lineFeed, hsame,
      if_neg (not_not.mpr rfl), hread]
    rfl

theorem refused_of_other {t s : DumpSwitch Table MeterArray}
    (hother : env.configMd5 t ≠ env.configMd5 s) :
    env.Refused t s ↔ ¬ ((∀ b ∈ env.configMd5 s, isSpace b = true) ∧
      (readWord isSpace (env.body s)).1 = env.configMd5 t) := by
  have hrefused : env.Refused t s ↔
      (readWord isSpace (env.configMd5 s ++ lineFeed :: env.body s)).1 ≠ env.configMd5 t := by
    rw [Refused, deserialize_serialize]
    constructor
    · rintro ⟨rest, heq⟩ hword
      rw [if_neg (not_not.mpr hword), Option.map_eq_some_iff] at heq
      obtain ⟨_, -, heq⟩ := heq
      cases heq
    · intro hword
      rw [if_pos hword]
      exact ⟨_, rfl⟩
  rw [hrefused]
  apply not_congr
  by_cases hspaces : ∀ b ∈ env.configMd5 s, isSpace b = true
  · -- the word comes from behind the digest
    have hskip : readWord isSpace (env.configMd5 s ++ lineFeed :: env.body s) =
        readWord isSpace (env.body s) := by
      rw [List.append_cons]
      refine readWord_spaces _ fun b hb => ?_
      rcases List.mem_append.mp hb with hb | hb
      · exact hspaces b hb
      · rw [List.mem_singleton.mp hb]
        exact isSpace_lineFeed
    rw [hskip, and_iff_right hspaces]
  · refine iff_of_false (fun hword => ?_) fun h => hspaces h.1
    have hsome : ∃ b ∈ env.configMd5 s, isSpace b = false := by
      push Not at hspaces
      simpa using hspaces
    rcases length_readWord_le hsome isSpace_lineFeed (env.body s) with heq | hlt
    · exact hother (hword.symm.trans heq)
    · -- all digests have the same length
      rw [hword] at hlt
      have ht := (env.md5 t.currentConfig).property
      have hs := (env.md5 s.currentConfig).property
      exact absurd (ht.trans hs.symm) (ne_of_lt hlt)

/-- The objects of a switch without tables and meter arrays, with the given digest. -/
def bareEnv (digest : Digest) : DumpEnv Empty Empty :=
  ⟨fun _ => digest, Empty.elim, fun t _ => t.elim, Empty.elim, fun t _ => t.elim⟩

/-- A switch with one context, without tables and meter arrays. -/
def bareSwitch : DumpSwitch Empty Empty := ⟨[], [⟨[], []⟩]⟩

/-- A digest without a space. -/
def plainDigest : Digest := ⟨List.replicate 16 0x41, rfl⟩

/-- The digest of `one_header.json`, with a carriage return in it. -/
def oneHeaderDigest : Digest :=
  ⟨[0x05, 0x6d, 0x00, 0x0d, 0xe4, 0x74, 0x28, 0x72, 0x38, 0x8e, 0x24, 0xaf, 0x8a, 0xea, 0x98, 0xa2],
    rfl⟩

end DumpEnv

end Bm

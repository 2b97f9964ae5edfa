import Mathlib.Data.List.TakeWhile
import LoxLang.Token.Stream

/-!
# The bytes of a source

A stream stands at a place of its source, before some characters and behind others. What it sees
ahead are the bytes of the characters that are left. An ASCII character is one byte, and no byte of
any other character looks like one, so that places found by bytes are places between characters.

1. `Utf8.takeWhile_units`, `Utf8.findIdx?_units`: searches by bytes are searches by characters.
2. `Stream.At.skipWhile_eq`, `Stream.At.find?_eq`: so are those of a stream.
3. `Stream.At.slice?_eq`: text between two such places is cut out without fail.
-/

namespace LoxLang

namespace Utf8

/-- The bytes of a text, each as the character of that number. -/
def units (text : List Char) : List Char :=
  (text.flatMap String.utf8EncodeChar).map Char.ofUInt8

/-- How many bytes a text has. -/
def width (text : List Char) : Nat :=
  (units text).length

theorem units_append (text more : List Char) : units (text ++ more) = units text ++ units more := by
  rw [units, List.flatMap_append, List.map_append]
  rfl

theorem units_cons (c : Char) (text : List Char) : units (c :: text) = units [c] ++ units text :=
  units_append [c] text

theorem width_append (text more : List Char) : width (text ++ more) = width text + width more := by
  rw [width, units_append, List.length_append]
  rfl

theorem units_of_ascii {c : Char} (h : c.toNat < 128) : units [c] = [c] := by
  have hsize : c.utf8Size = 1 :=
    Char.utf8Size_eq_one_iff.2 (UInt32.le_iff_toNat_le.2 (Nat.le_of_lt_succ h))
  have hval : c.val.toUInt8.toUInt32 = c.val := by
    apply UInt32.toNat_inj.1
    rw [UInt8.toNat_toUInt32, UInt32.toNat_toUInt8]
    exact Nat.mod_eq_of_lt (Nat.lt_trans h (by decide))
  rw [units, List.flatMap_singleton, String.utf8EncodeChar_eq_singleton hsize]
  exact congrArg (fun c => [c]) (Char.ext hval)

theorem width_of_ascii {c : Char} (h : c.toNat < 128) : width [c] = 1 := by
  rw [width, units_of_ascii h]
  rfl

theorem toNat_ofUInt8 (b : UInt8) : (Char.ofUInt8 b).toNat = b.toNat :=
  UInt8.toNat_toUInt32 b

theorem le_toNat_ofNat {n k : Nat} (hk : 128 ≤ k) (hn : n + k < 256) :
    128 ≤ (UInt8.ofNat (n + k)).toNat := by
  rw [UInt8.toNat_ofNat', Nat.mod_eq_of_lt hn]
  exact Nat.le_add_left_of_le hk

/-- No byte of a character that is not ASCII looks like one that is. -/
theorem le_of_mem_units {c u : Char} (h : 128 ≤ c.toNat) (hu : u ∈ units [c]) :
    128 ≤ u.toNat := by
  have hc : ¬ c.val.toNat ≤ 127 := Nat.not_le.2 h
  have hall : ∀ b ∈ String.utf8EncodeChar c, 128 ≤ b.toNat := by
    simp only [String.utf8EncodeChar, hc, if_false]
    split
    · simp only [List.forall_mem_cons]
      exact ⟨le_toNat_ofNat (by decide) (by omega), le_toNat_ofNat (by decide) (by omega), nofun⟩
    · split
      · simp only [List.forall_mem_cons]
        exact ⟨le_toNat_ofNat (by decide) (by omega), le_toNat_ofNat (by decide) (by omega),
          le_toNat_ofNat (by decide) (by omega), nofun⟩
      · simp only [List.forall_mem_cons]
        exact ⟨le_toNat_ofNat (by decide) (by omega), le_toNat_ofNat (by decide) (by omega),
          le_toNat_ofNat (by decide) (by omega), le_toNat_ofNat (by decide) (by omega), nofun⟩
  obtain ⟨b, hb, rfl⟩ := List.mem_map.1 hu
  rw [List.flatMap_singleton] at hb
  rw [toNat_ofUInt8]
  exact hall b hb

theorem units_ne_nil (c : Char) : units [c] ≠ [] := by
  rw [units, List.flatMap_singleton]
  exact fun h => String.utf8EncodeChar_ne_nil (List.map_eq_nil_iff.1 h)

theorem width_pos {text : List Char} (h : text ≠ []) : 0 < width text := by
  obtain ⟨c, text, rfl⟩ := List.exists_cons_of_ne_nil h
  rw [width, units_cons, List.length_append]
  exact Nat.add_pos_left (List.length_pos_iff.2 (units_ne_nil c)) _

/-- Only ASCII characters are of this kind. -/
def Ascii (kind : Char → Bool) : Prop :=
  ∀ c, kind c → c.toNat < 128

theorem Ascii.eq_false {kind : Char → Bool} (h : Ascii kind) {c : Char} (hc : 128 ≤ c.toNat) :
    kind c = false :=
  Bool.eq_false_iff.2 fun hkind => absurd (h c hkind) (Nat.not_lt.2 hc)

theorem takeWhile_units {kind : Char → Bool} (h : Ascii kind) (text : List Char) :
    (units text).takeWhile kind = units (text.takeWhile kind) := by
  induction text with
  | nil => rfl
  | cons c text ih =>
    rw [units_cons]
    by_cases hc : c.toNat < 128
    · rw [units_of_ascii hc, List.singleton_append, List.takeWhile_cons, List.takeWhile_cons]
      cases kind c with
      | true => rw [if_pos rfl, if_pos rfl, ih, units_cons, units_of_ascii hc]; rfl
      | false => rfl
    · have hc := Nat.not_lt.1 hc
      obtain ⟨u, us, hu⟩ := List.exists_cons_of_ne_nil (units_ne_nil c)
      have hkind : kind u = false := h.eq_false (le_of_mem_units hc (hu ▸ List.mem_cons_self))
      rw [hu, List.cons_append, List.takeWhile_cons_of_neg (Bool.eq_false_iff.1 hkind),
        List.takeWhile_cons_of_neg (Bool.eq_false_iff.1 (h.eq_false hc))]
      rfl

/-- An ASCII byte is a character of its own. -/
theorem eq_of_mem_units {c d : Char} (hd : d.toNat < 128) (h : d ∈ units [c]) : d = c := by
  by_cases hc : c.toNat < 128
  · exact List.mem_singleton.1 (units_of_ascii hc ▸ h)
  · exact absurd (le_of_mem_units (Nat.not_lt.1 hc) h) (Nat.not_le.2 hd)

/-- An ASCII byte is found first where the character is. -/
theorem findIdx?_units {d : Char} (hd : d.toNat < 128) (text : List Char) :
    (units text).findIdx? (· == d) =
      if d ∈ text then some (width (text.takeWhile (· != d))) else none := by
  induction text with
  | nil => rfl
  | cons c text ih =>
    by_cases hc : c = d
    · subst hc
      rw [units_cons, units_of_ascii hd, List.singleton_append, List.findIdx?_cons,
        beq_self_eq_true, if_pos rfl, if_pos List.mem_cons_self,
        List.takeWhile_cons_of_neg (by simp)]
      rfl
    · -- Another character is passed over with all its bytes.
      have hnone : (units [c]).findIdx? (· == d) = none :=
        List.findIdx?_eq_none_iff.2 fun u hu =>
          beq_eq_false_iff_ne.2 fun hud => hc (eq_of_mem_units hd (hud ▸ hu)).symm
      have htake : (c :: text).takeWhile (· != d) = [c] ++ text.takeWhile (· != d) :=
        List.takeWhile_cons_of_pos (by simpa using hc)
      have hmem : d ∈ c :: text ↔ d ∈ text := by simp [Ne.symm hc]
      rw [units_cons, List.findIdx?_append, hnone, Option.none_or, ih, htake, width_append]
      simp only [hmem]
      split
      · exact congrArg some (Nat.add_comm _ _)
      · rfl

/-- An ASCII byte is there as often as the character. -/
theorem count_units {d : Char} (hd : d.toNat < 128) (text : List Char) :
    (units text).count d = text.count d := by
  induction text with
  | nil => rfl
  | cons c text ih =>
    have hone : (units [c]).count d = [c].count d := by
      by_cases hc : c.toNat < 128
      · rw [units_of_ascii hc]
      · have hnone : d ∉ units [c] := fun h => hc (eq_of_mem_units hd h ▸ hd)
        have hne : d ∉ [c] := fun h => hc (List.mem_singleton.1 h ▸ hd)
        rw [List.count_eq_zero.2 hnone, List.count_eq_zero.2 hne]
    rw [units_cons, List.count_append, ih, hone, ← List.count_append, List.singleton_append]

end Utf8

open Utf8

namespace Stream

/-! ## Bytes and places -/

/-- The bytes from a place on. -/
def bytesFrom (s : Stream) (place : Nat) : List Char :=
  (s.source.toByteArray.data.toList.map Char.ofUInt8).drop place

theorem length_bytesFrom (s : Stream) (place : Nat) :
    (s.bytesFrom place).length = s.size - place := by
  rw [bytesFrom, List.length_drop, List.length_map, Array.length_toList]
  rfl

theorem bytesFrom_of_le {s : Stream} {place : Nat} (h : s.size ≤ place) : s.bytesFrom place = [] :=
  List.eq_nil_of_length_eq_zero ((length_bytesFrom s place).trans (Nat.sub_eq_zero_of_le h))

theorem bytesFrom_of_lt {s : Stream} {place : Nat} (h : place < s.size) :
    s.bytesFrom place = s.byte place :: s.bytesFrom (place + 1) := by
  have hlength : place < (s.source.toByteArray.data.toList.map Char.ofUInt8).length := by
    rw [List.length_map, Array.length_toList]
    exact h
  have hbyte : s.byte place = (s.source.toByteArray.data.toList.map Char.ofUInt8)[place] := by
    rw [byte, dif_pos (show (⟨place⟩ : String.Pos.Raw) < s.source.rawEndPos from h),
      List.getElem_map]
    rfl
  rw [bytesFrom, List.drop_eq_getElem_cons hlength, hbyte]
  rfl

theorem byte_eq (s : Stream) (place : Nat) : s.byte place = (s.bytesFrom place).headD '\x00' := by
  by_cases h : place < s.size
  · rw [bytesFrom_of_lt h]
    rfl
  · rw [bytesFrom_of_le (Nat.not_lt.1 h)]
    exact dif_neg h

theorem find?_eq (s : Stream) (c : Char) (place : Nat) :
    s.find? c place = ((s.bytesFrom place).findIdx? (· == c)).map (place + ·) := by
  fun_induction find? s c place with
  | case1 place h heq =>
    have heq : (s.byte place == c) = true := by simpa using heq
    rw [bytesFrom_of_lt h, List.findIdx?_cons, heq, if_pos rfl]
    rfl
  | case2 place h hne ih =>
    have hne : (s.byte place == c) = false := by simpa using hne
    rw [ih, bytesFrom_of_lt h, List.findIdx?_cons, hne, if_neg Bool.false_ne_true, Option.map_map]
    exact congrArg (Option.map · _) (funext fun i => by simp only [Function.comp]; omega)
  | case3 place h => rw [bytesFrom_of_le (Nat.not_lt.1 h)]; rfl

/-- Passes so many bytes. -/
def pass (s : Stream) (count : Nat) : Stream :=
  { s with pos := s.pos + count }

theorem skip_pass (s : Stream) (count : Nat) : s.skip.pass count = s.pass (count + 1) := by
  simp only [pass, skip, Nat.add_assoc, Nat.add_comm 1]

theorem skipWhile_eq (kind : Char → Bool) (stops : kind '\x00' = false) (s : Stream) :
    s.skipWhile kind stops = s.pass ((s.bytesFrom s.pos).takeWhile kind).length := by
  fun_induction skipWhile kind stops s with
  | case1 s h hinside ih =>
    have h : kind (s.byte s.pos) := h
    rw [ih, skip_pass, bytesFrom_of_lt hinside, List.takeWhile_cons_of_pos h]
    rfl
  | case2 s h =>
    cases hrest : s.bytesFrom s.pos with
    | nil => rfl
    | cons u us =>
      have hu : s.ahead 0 = u := by rw [ahead, byte_eq, Nat.add_zero, hrest]; rfl
      rw [List.takeWhile_cons_of_neg (hu ▸ h)]
      rfl

/-! ## Between two characters -/

/-- The stream is behind some characters of its source and before the others. -/
structure At (s : Stream) (before rest : List Char) : Prop where
  source : s.source = String.ofList (before ++ rest)
  pos : s.pos = width before

theorem at_ofSource (source : String) : (ofSource source).At [] source.toList :=
  ⟨String.ofList_toList.symm, rfl⟩

theorem units_source {s : Stream} {text : List Char} (h : s.source = String.ofList text) :
    s.source.toByteArray.data.toList.map Char.ofUInt8 = units text := by
  rw [h, String.toByteArray_ofList, List.utf8Encode, List.toList_data_toByteArray, units]

theorem size_of_source {s : Stream} {text : List Char} (h : s.source = String.ofList text) :
    s.size = width text := by
  rw [width, ← units_source h, List.length_map, Array.length_toList]
  rfl

/-- Between two characters a source can be cut. -/
theorem exists_pos {source : String} {before rest : List Char}
    (h : source = String.ofList (before ++ rest)) :
    ∃ place, source.pos? ⟨width before⟩ = some place ∧
      place.Splits (String.ofList before) (String.ofList rest) := by
  have happend : source = String.ofList before ++ String.ofList rest := by
    rw [h, String.ofList_append]
  have hend : (⟨width before⟩ : String.Pos.Raw) = (String.ofList before).rawEndPos :=
    congrArg String.Pos.Raw.mk (size_of_source (s := ofSource (String.ofList before)) rfl).symm
  have hvalid : (⟨width before⟩ : String.Pos.Raw).IsValid source :=
    String.Pos.Raw.isValid_iff_exists_append.2 ⟨_, _, happend, hend⟩
  refine ⟨source.pos _ hvalid, ?_, happend, hend⟩
  rw [String.pos?, String.Slice.pos?,
    dif_pos (String.Pos.Raw.isValidForSlice_eq_true_iff.2 hvalid.toSlice)]
  rfl

/-- The text between two places that lie between characters. -/
theorem slice?_eq {source : String} {before text rest : List Char}
    (h : source = String.ofList (before ++ text ++ rest)) :
    slice? source (width before) (width (before ++ text)) = some (String.ofList text) := by
  have happend : source = String.ofList (before ++ (text ++ rest)) := by
    rw [h, List.append_assoc]
  obtain ⟨first, hfirst, hsplits⟩ := exists_pos happend
  obtain ⟨last, hlast, hsplits'⟩ := exists_pos h
  rw [String.ofList_append] at hsplits hsplits'
  obtain ⟨hle, hcopy⟩ := String.copy_slice_eq_iff_splits.2 ⟨_, _, hsplits, hsplits'⟩
  simp [slice?, hfirst, hlast, hle, String.extract_eq_copy_slice _ _ hle, hcopy]

namespace At

variable {s : Stream} {before rest : List Char}

theorem bytesFrom (h : s.At before rest) : s.bytesFrom s.pos = units rest := by
  rw [Stream.bytesFrom, units_source h.source, units_append, h.pos]
  exact List.drop_left

theorem size (h : s.At before rest) : s.size = s.pos + width rest := by
  rw [size_of_source h.source, width_append, h.pos]

theorem lt_size {c : Char} (h : s.At before (c :: rest)) : s.pos < s.size := by
  rw [h.size]
  exact Nat.lt_add_of_pos_right (width_pos (List.cons_ne_nil c rest))

theorem pass {text : List Char} (h : s.At before (text ++ rest)) :
    (s.pass (width text)).At (before ++ text) rest where
  source := by rw [List.append_assoc]; exact h.source
  pos := by rw [width_append, ← h.pos]; rfl

theorem skip_eq {c : Char} (hc : c.toNat < 128) : s.skip = s.pass (width [c]) := by
  rw [width_of_ascii hc]
  rfl

theorem skip {c : Char} (h : s.At before (c :: rest)) (hc : c.toNat < 128) :
    s.skip.At (before ++ [c]) rest := by
  have h : s.At before ([c] ++ rest) := h
  exact skip_eq hc ▸ h.pass

/-- The text of the next characters. -/
theorem slice?_eq {text : List Char} (h : s.At before (text ++ rest)) :
    slice? s.source s.pos (s.pos + width text) = some (String.ofList text) := by
  rw [h.pos, ← width_append, Stream.slice?_eq (h.source.trans (by rw [List.append_assoc]))]

theorem ahead_zero (h : s.At before rest) : s.ahead 0 = (units rest).headD '\x00' := by
  rw [ahead, byte_eq, Nat.add_zero, h.bytesFrom]

theorem ahead_cons {c : Char} (h : s.At before (c :: rest)) (hc : c.toNat < 128) :
    s.ahead 0 = c := by
  rw [h.ahead_zero, units_cons, units_of_ascii hc]
  rfl

theorem le_ahead {c : Char} (h : s.At before (c :: rest)) (hc : 128 ≤ c.toNat) :
    128 ≤ (s.ahead 0).toNat := by
  obtain ⟨u, us, hu⟩ := List.exists_cons_of_ne_nil (units_ne_nil c)
  have hmem : u ∈ units [c] := hu ▸ List.mem_cons_self
  rw [h.ahead_zero, units_cons, hu]
  exact le_of_mem_units hc hmem

/-- The next byte is of an ASCII kind just if the next character is. -/
theorem kind_ahead {kind : Char → Bool} (hkind : Ascii kind) (stops : kind '\x00' = false)
    (h : s.At before rest) : kind (s.ahead 0) = rest.head?.any kind := by
  cases rest with
  | nil => rw [h.ahead_zero]; exact stops
  | cons c rest =>
    by_cases hc : c.toNat < 128
    · rw [h.ahead_cons hc]
      rfl
    · have hc := Nat.not_lt.1 hc
      rw [hkind.eq_false (h.le_ahead hc)]
      exact (hkind.eq_false hc).symm

theorem sees_iff {c : Char} (hc : c.toNat < 128) (h : s.At before rest) :
    s.sees c ↔ ∃ after, rest = c :: after := by
  have hsees : s.sees c ↔ s.pos < s.size ∧ s.ahead 0 = c := by
    simp [sees, atEnd]
  rw [hsees]
  constructor
  · rintro ⟨hinside, hahead⟩
    cases rest with
    | nil => exact absurd h.size (Nat.ne_of_gt hinside)
    | cons d rest =>
      by_cases hd : d.toNat < 128
      · exact ⟨rest, by rw [← hahead, h.ahead_cons hd]⟩
      · exact absurd (h.le_ahead (Nat.not_lt.1 hd)) (Nat.not_le.2 (hahead ▸ hc))
  · rintro ⟨after, rfl⟩
    exact ⟨h.lt_size, h.ahead_cons hc⟩

theorem skipWhile_eq {kind : Char → Bool} (hkind : Ascii kind) (stops : kind '\x00' = false)
    (h : s.At before rest) :
    s.skipWhile kind stops = s.pass (width (rest.takeWhile kind)) := by
  rw [Stream.skipWhile_eq, h.bytesFrom, takeWhile_units hkind]
  rfl

theorem find?_eq {c : Char} (hc : c.toNat < 128) (h : s.At before rest) :
    s.find? c s.pos =
      if c ∈ rest then some (s.pos + width (rest.takeWhile (· != c))) else none := by
  rw [Stream.find?_eq, h.bytesFrom, findIdx?_units hc]
  split <;> rfl

end At

end Stream

end LoxLang

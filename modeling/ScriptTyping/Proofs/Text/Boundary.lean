import ScriptTyping.Text.Utf8

set_option autoImplicit false

namespace ScriptTyping.Utf8

def Splits (source : String) (offset : Nat) : Prop :=
  ∃ before char after, source.toList = before ++ char :: after ∧
    (String.ofList before).utf8ByteSize < min offset source.utf8ByteSize ∧
    min offset source.utf8ByteSize < (String.ofList before).utf8ByteSize + char.utf8Size

def OnBoundary (source : String) (offset : Nat) : Prop :=
  String.Pos.Raw.IsValid source ⟨min offset source.utf8ByteSize⟩

theorem byteSize_cons (char : Char) (chars : List Char) :
    (String.ofList (char :: chars)).utf8ByteSize =
      char.utf8Size + (String.ofList chars).utf8ByteSize := by
  rw [← List.singleton_append, String.ofList_append, String.utf8ByteSize_append,
    ← String.singleton_eq_ofList, String.utf8ByteSize_singleton]

theorem byteSize_append (left right : List Char) :
    (String.ofList (left ++ right)).utf8ByteSize =
      (String.ofList left).utf8ByteSize + (String.ofList right).utf8ByteSize := by
  rw [String.ofList_append, String.utf8ByteSize_append]

theorem boundary_or_inside (chars : List Char) (offset : Nat)
    (within : offset ≤ (String.ofList chars).utf8ByteSize) :
    (∃ count, offset = (String.ofList (chars.take count)).utf8ByteSize) ∨
      ∃ before char after, chars = before ++ char :: after ∧
        (String.ofList before).utf8ByteSize < offset ∧
        offset < (String.ofList before).utf8ByteSize + char.utf8Size := by
  induction chars generalizing offset with
  | nil => exact .inl ⟨0, by simpa using within⟩
  | cons char rest ih =>
      rw [byteSize_cons] at within
      by_cases start : offset = 0
      · exact .inl ⟨0, by simp [start]⟩
      by_cases first : offset < char.utf8Size
      · exact .inr ⟨[], char, rest, rfl, by simp; omega, by simpa using first⟩
      rcases ih (offset - char.utf8Size) (by omega) with
        ⟨count, same⟩ | ⟨before, split, after, rfl, above, below⟩
      · refine .inl ⟨count + 1, ?_⟩
        rw [List.take_succ_cons, byteSize_cons]
        omega
      · refine .inr ⟨char :: before, split, after, rfl, ?_, ?_⟩ <;>
          rw [byteSize_cons] <;> omega

theorem splits_iff (source : String) (offset : Nat) :
    Splits source offset ↔ ¬ OnBoundary source offset := by
  unfold Splits OnBoundary
  rw [String.Pos.Raw.isValid_iff_exists_take_toList]
  generalize cut : min offset source.utf8ByteSize = limit
  constructor
  · rintro ⟨before, char, after, same, above, below⟩ ⟨count, equal⟩
    simp only at equal
    by_cases shorter : count ≤ before.length
    · have covered : source.toList.take count ++ before.drop count = before := by
        rw [same, List.take_append_of_le_length shorter, List.take_append_drop]
      have size := congrArg (fun chars => (String.ofList chars).utf8ByteSize) covered
      simp only [byteSize_append] at size
      omega
    · have covers : source.toList.take count =
          before ++ char :: after.take (count - before.length - 1) := by
        rw [same, List.take_append, List.take_of_length_le (by omega)]
        obtain ⟨more, rfl⟩ : ∃ more, count = before.length + 1 + more :=
          ⟨count - before.length - 1, by omega⟩
        have first : before.length + 1 + more - before.length = more + 1 := by omega
        rw [first, List.take_succ_cons]
        simp
      rw [covers, byteSize_append, byteSize_cons] at equal
      omega
  · intro outside
    have within : limit ≤ (String.ofList source.toList).utf8ByteSize := by
      rw [String.ofList_toList]
      omega
    rcases boundary_or_inside source.toList limit within with found | inside
    · exact absurd found outside
    · exact inside

theorem splits_or_iff (source : String) (start stop : Nat) :
    Splits source start ∨ Splits source stop ↔
      ¬ (OnBoundary source start ∧ OnBoundary source stop) := by
  rw [splits_iff, splits_iff, Classical.not_and_iff_not_or_not]

theorem onBoundary_zero (source : String) : OnBoundary source 0 := by
  unfold OnBoundary
  simp

theorem onBoundary_size (source : String) : OnBoundary source source.toUTF8.size := by
  have whole : source.toUTF8.size = source.utf8ByteSize := rfl
  unfold OnBoundary
  rw [whole, Nat.min_self]
  exact String.Pos.Raw.isValid_rawEndPos

theorem decode_toUTF8 (source : String) : decode source.toUTF8 = .ok source := by
  unfold decode String.fromUTF8?
  rw [String.toUTF8_eq_toByteArray, dif_pos source.isValidUTF8]
  rfl

theorem toUTF8_decode {bytes : ByteArray} {text : String} (decoded : decode bytes = .ok text) :
    text.toUTF8 = bytes := by
  unfold decode String.fromUTF8? at decoded
  split at decoded
  next found =>
    split at found
    next valid =>
      simp only [Option.some.injEq] at found
      cases decoded
      rw [← found]
      rfl
    next => simp at found
  next => simp at decoded

theorem toUTF8_decodeRange {bytes : ByteArray} {start stop : Nat} {text : String}
    (decoded : decodeRange bytes start stop = .ok text) :
    text.toUTF8 = bytes.extract start stop :=
  toUTF8_decode decoded

theorem extract_min_stop (bytes : ByteArray) (start stop : Nat) :
    bytes.extract start stop = bytes.extract start (min stop bytes.size) := by
  rcases Nat.lt_or_ge bytes.size stop with beyond | inside
  · rw [Nat.min_eq_right (by omega)]
    apply ByteArray.ext
    rw [ByteArray.data_extract, ByteArray.data_extract, Array.extract_of_size_lt beyond]
    rfl
  · rw [Nat.min_eq_left inside]

theorem decodeRange_eq_ok_iff (source : String) (start stop : Nat) (ordered : start ≤ stop) :
    (∃ text, decodeRange source.toUTF8 start stop = .ok text) ↔
      min start source.utf8ByteSize = min stop source.utf8ByteSize ∨
        OnBoundary source start ∧ OnBoundary source stop := by
  have valid : (∃ text, decodeRange source.toUTF8 start stop = .ok text) ↔
      (source.toUTF8.extract start stop).IsValidUTF8 := by
    unfold decodeRange decode String.fromUTF8?
    generalize source.toUTF8.extract start stop = bytes
    by_cases valid : bytes.IsValidUTF8 <;> simp [valid]
  have cut : source.toUTF8.extract start stop =
      source.toUTF8.extract (min start source.utf8ByteSize) (min stop source.utf8ByteSize) := by
    have whole : source.toUTF8.size = source.utf8ByteSize := rfl
    rcases Nat.le_total start source.utf8ByteSize with below | above
    · rw [Nat.min_eq_left below, extract_min_stop, whole]
    · rw [Nat.min_eq_right above, Nat.min_eq_right (by omega), ByteArray.extract_same,
        ByteArray.extract_eq_empty_iff]
      omega
  rw [valid, cut]
  have bounded := String.Pos.Raw.isValidUTF8_extract_iff
    (⟨min start source.utf8ByteSize⟩ : String.Pos.Raw) ⟨min stop source.utf8ByteSize⟩
    (by rw [String.Pos.Raw.le_iff]; simp only; omega)
    (s := source) (by rw [String.Pos.Raw.le_iff, String.byteIdx_rawEndPos]; simp only; omega)
  simpa [OnBoundary, String.Pos.Raw.ext_iff] using bounded

theorem decodeRange_to_end (source : String) (start : Nat) (boundary : OnBoundary source start) :
    ∃ text, decodeRange source.toUTF8 start source.toUTF8.size = .ok text := by
  -- What follows a place between two characters can be read, also when that place is beyond the
  -- end.
  rcases Nat.le_total start source.toUTF8.size with inside | beyond
  · exact (decodeRange_eq_ok_iff source _ _ inside).mpr (.inr ⟨boundary, onBoundary_size source⟩)
  · have nothing : source.toUTF8.extract start source.toUTF8.size = ByteArray.empty := by
      rw [ByteArray.extract_eq_empty_iff]
      omega
    refine ⟨"", ?_⟩
    rw [decodeRange, nothing]
    exact decode_toUTF8 ""

end ScriptTyping.Utf8

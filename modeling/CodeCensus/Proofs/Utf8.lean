import CodeCensus.Text.Utf8
import Mathlib.Data.List.Lex
import Mathlib.Data.Nat.Basic
import Mathlib.Data.String.Basic

/-!
# The bytes of texts

A character is written in a row of up to four bytes (`Shape`, `row`).  Each byte after the first has six
bits of its number, and the first byte has the rest on top of a mark that says how many bytes follow.

Two facts are drawn from this.  Bytes that are a text are shown as that text (`lossy_toUTF8`).  And texts
are in the order of their bytes: where the first characters differ, their rows differ at a byte that
neither of them lacks, and in the same direction (`toList_toUTF8_lt_iff`).

Bytes that are no text are shown as well, and as something (`lossy_ne_empty`).  A character of several
bytes never comes out as one in ASCII, since the bounds of its second byte exclude over-long forms: so a
character in ASCII is shown only where its own byte is (`notMem_toList_lossy`).
-/

namespace CodeCensus.Text

/-! ### Byte arrays -/

/-- The loop has read the bytes in front of a position and adds the others. -/
theorem toList_loop (bytes : ByteArray) (position : Nat) (read : List UInt8) :
    ByteArray.toList.loop bytes position read =
      read.reverse ++ bytes.data.toList.drop position := by
  fun_induction ByteArray.toList.loop bytes position read with
  | case1 position read inside ih =>
    have hlt : position < bytes.data.size := inside
    have hdrop : bytes.data.toList.drop position =
        bytes.get! position :: bytes.data.toList.drop (position + 1) := by
      rw [List.drop_eq_getElem_cons (by simpa using hlt), ByteArray.get!,
        getElem!_pos bytes.data position hlt, Array.getElem_toList]
    rw [ih, hdrop, List.reverse_cons, List.append_assoc, List.singleton_append]
  | case2 position read outside =>
    have hdrop : bytes.data.toList.drop position = [] :=
      List.drop_eq_nil_of_le (Nat.le_of_not_lt outside)
    rw [hdrop, List.append_nil]

theorem toList_eq_data_toList (bytes : ByteArray) : bytes.toList = bytes.data.toList := by
  rw [ByteArray.toList, toList_loop, List.drop_zero]
  rfl

/-! ### Texts and their bytes -/

/-- The bytes of a text are those of its characters, one after the other. -/
theorem toList_toUTF8 (text : String) :
    text.toUTF8.toList = text.toList.flatMap String.utf8EncodeChar := by
  rw [toList_eq_data_toList, String.toUTF8, ← String.utf8Encode_toList, List.utf8Encode,
    List.toList_data_toByteArray]

theorem toList_toUTF8_append (text other : String) :
    (text ++ other).toUTF8.toList = text.toUTF8.toList ++ other.toUTF8.toList := by
  rw [toList_toUTF8, toList_toUTF8, toList_toUTF8, String.toList_append, List.flatMap_append]

/-- Only the bytes of a text are read as this text. -/
theorem ofUtf8?_eq_some_iff {bytes : ByteArray} {text : String} :
    ofUtf8? bytes = some text ↔ bytes = text.toUTF8 := by
  unfold ofUtf8? String.fromUTF8?
  constructor
  · intro read
    split at read
    · cases read
      rfl
    · cases read
  · rintro rfl
    have hvalid : text.toUTF8.IsValidUTF8 := text.isValidUTF8
    rw [dif_pos hvalid]
    rfl

/-- The text of some bytes is the one that has these bytes. -/
theorem ofBytes?_eq_some_iff {bytes : List UInt8} {text : String} :
    ofBytes? bytes = some text ↔ text.toUTF8.toList = bytes := by
  rw [ofBytes?, ofUtf8?_eq_some_iff, toList_eq_data_toList]
  constructor
  · intro same
    rw [← same]
  · rintro rfl
    rfl

/-! ### The bytes of a character -/

/-- The bytes of a number, with `n` bytes after the first one. -/
def row (mark : Nat) : (n v : Nat) → List UInt8
  | 0, v => [.ofNat (mark + v)]
  | n + 1, v => row mark n (v / 64) ++ [.ofNat (0x80 + v % 64)]

/-- The marks and the numbers of further bytes with which characters are written. -/
inductive Shape (v : Nat) : Nat → Nat → Prop where
  | one (below : v < 0x80) : Shape v 0 0
  | two (above : 0x80 ≤ v) (below : v < 0x800) : Shape v 0xC0 1
  | three (above : 0x800 ≤ v) (below : v < 0x10000) (gap : v < 0xD800 ∨ 0xDFFF < v) : Shape v 0xE0 2
  | four (above : 0x10000 ≤ v) (below : v < 0x110000) : Shape v 0xF0 3

/-- Every character is written in one of the four shapes, by the bits of its number. -/
theorem utf8EncodeChar_eq_row (c : Char) :
    ∃ mark n, Shape c.toNat mark n ∧ String.utf8EncodeChar c = row mark n c.toNat := by
  have hvalid : c.toNat < 0xD800 ∨ 0xDFFF < c.toNat ∧ c.toNat < 0x110000 := c.valid
  have hencode : String.utf8EncodeChar c =
      if c.toNat ≤ 127 then [.ofNat c.toNat]
      else if c.toNat ≤ 2047 then [.ofNat (c.toNat / 64 % 32 + 192), .ofNat (c.toNat % 64 + 128)]
      else if c.toNat ≤ 65535 then [.ofNat (c.toNat / 4096 % 16 + 224),
        .ofNat (c.toNat / 64 % 64 + 128), .ofNat (c.toNat % 64 + 128)]
      else [.ofNat (c.toNat / 262144 % 8 + 240), .ofNat (c.toNat / 4096 % 64 + 128),
        .ofNat (c.toNat / 64 % 64 + 128), .ofNat (c.toNat % 64 + 128)] := rfl
  rw [hencode]
  generalize c.toNat = v at *
  have htwice : v / 4096 = v / 64 / 64 := by omega
  have hthrice : v / 262144 = v / 64 / 64 / 64 := by omega
  split
  · refine ⟨0, 0, .one (by omega), ?_⟩
    rw [row, Nat.zero_add]
  · split
    · refine ⟨0xC0, 1, .two (by omega) (by omega), ?_⟩
      rw [row, row, Nat.mod_eq_of_lt (by omega), Nat.add_comm, Nat.add_comm (v % 64)]
      rfl
    · split
      · refine ⟨0xE0, 2, .three (by omega) (by omega) (by omega), ?_⟩
        rw [row, row, row, htwice, Nat.mod_eq_of_lt (by omega), Nat.add_comm,
          Nat.add_comm (v % 64), Nat.add_comm (v / 64 % 64)]
        rfl
      · refine ⟨0xF0, 3, .four (by omega) (by omega), ?_⟩
        rw [row, row, row, row, htwice, hthrice, Nat.mod_eq_of_lt (by omega), Nat.add_comm,
          Nat.add_comm (v % 64), Nat.add_comm (v / 64 % 64), Nat.add_comm (v / 64 / 64 % 64)]
        rfl

/-! ### Showing texts -/

/-- The lead of a single byte holds the number itself. -/
theorem lead?_one : ∀ k < 0x80, lead? (.ofNat k) = some (0, 0x80, 0xBF, k) := by
  decide

/-- The lead of two bytes holds five bits, of which the first four are not all zero. -/
theorem lead?_two : ∀ k < 30, lead? (.ofNat (0xC2 + k)) = some (1, 0x80, 0xBF, 2 + k) := by
  decide

/-- The lead of three bytes holds four bits, and the bounds on the next byte leave out short numbers and
surrogates. -/
theorem lead?_three : ∀ k < 16, lead? (.ofNat (0xE0 + k)) =
    some (2, if k = 0 then 0xA0 else 0x80, if k = 13 then 0x9F else 0xBF, k) := by
  decide

/-- The lead of four bytes holds three bits, and the bounds on the next byte leave out short numbers and
those beyond the last character. -/
theorem lead?_four : ∀ k < 5, lead? (.ofNat (0xF0 + k)) =
    some (3, if k = 0 then 0x90 else 0x80, if k = 4 then 0x8F else 0xBF, k) := by
  decide

/-- A first byte that has others after it opens a character. -/
theorem next_of_lead {byte low high : UInt8} {needed value : Nat}
    (lead : lead? byte = some (needed + 1, low, high, value)) (done : List Char) :
    Decoding.next ⟨done, none⟩ byte = ⟨done, some ⟨needed + 1, low, high, value⟩⟩ := by
  unfold Decoding.next Decoding.begin
  simp only [lead]

/-- A further byte within its bounds brings six bits more. -/
theorem next_continuation {done : List Char} {needed k value : Nat} {low high : UInt8} (small : k < 64)
    (above : low.toNat ≤ 0x80 + k) (below : 0x80 + k ≤ high.toNat) :
    Decoding.next ⟨done, some ⟨needed, low, high, value⟩⟩ (.ofNat (0x80 + k)) =
      if needed ≤ 1 then ⟨Char.ofNat (value * 64 + k) :: done, none⟩
      else ⟨done, some ⟨needed - 1, 0x80, 0xBF, value * 64 + k⟩⟩ := by
  have hbyte : (UInt8.ofNat (0x80 + k)).toNat = 0x80 + k := by
    rw [UInt8.toNat_ofNat']
    omega
  have hbounds : low ≤ UInt8.ofNat (0x80 + k) ∧ UInt8.ofNat (0x80 + k) ≤ high := by
    rw [UInt8.le_iff_toNat_le, UInt8.le_iff_toNat_le, hbyte]
    exact ⟨above, below⟩
  unfold Decoding.next
  simp only [if_pos hbounds, hbyte, Nat.add_sub_cancel_left]

/-- After the first and the second byte every byte has the same bounds. -/
theorem next_continuation_free {done : List Char} {needed k value : Nat} (small : k < 64) :
    Decoding.next ⟨done, some ⟨needed, 0x80, 0xBF, value⟩⟩ (.ofNat (0x80 + k)) =
      if needed ≤ 1 then ⟨Char.ofNat (value * 64 + k) :: done, none⟩
      else ⟨done, some ⟨needed - 1, 0x80, 0xBF, value * 64 + k⟩⟩ := by
  refine next_continuation small (Nat.le_add_right _ _) ?_
  have hhigh : (0xBF : UInt8).toNat = 0xBF := rfl
  omega

/-- The row of a number is read as the character with this number. -/
theorem foldl_next_row {v mark n : Nat} (shape : Shape v mark n) (done : List Char) :
    (row mark n v).foldl Decoding.next ⟨done, none⟩ = ⟨Char.ofNat v :: done, none⟩ := by
  -- In each shape the lead is looked up, and every further byte brings six bits of the number.
  cases shape with
  | one below =>
    rw [row, Nat.zero_add, List.foldl_cons, List.foldl_nil]
    unfold Decoding.next Decoding.begin
    simp only [lead?_one v below]
  | two above below =>
    have hlead := lead?_two (v / 64 - 2) (by omega)
    rw [show 0xC2 + (v / 64 - 2) = 0xC0 + v / 64 by omega,
      show 2 + (v / 64 - 2) = v / 64 by omega] at hlead
    rw [row, row, List.foldl_append, List.foldl_cons, List.foldl_nil, List.foldl_cons, List.foldl_nil,
      next_of_lead hlead, next_continuation_free (by omega), if_pos (by omega)]
    rw [show v / 64 * 64 + v % 64 = v by omega]
  | three above below gap =>
    have hlead := lead?_three (v / 64 / 64) (by omega)
    rw [row, row, row, List.foldl_append, List.foldl_append, List.foldl_cons, List.foldl_nil,
      List.foldl_cons, List.foldl_nil, List.foldl_cons, List.foldl_nil, next_of_lead hlead,
      next_continuation, if_neg (by omega), next_continuation_free (by omega), if_pos (by omega)]
    · rw [show (v / 64 / 64 * 64 + v / 64 % 64) * 64 + v % 64 = v by omega]
    · omega
    · split
      · have hlow : (0xA0 : UInt8).toNat = 0xA0 := rfl
        omega
      · exact Nat.le_add_right _ _
    · split
      · have hhigh : (0x9F : UInt8).toNat = 0x9F := rfl
        omega
      · have hhigh : (0xBF : UInt8).toNat = 0xBF := rfl
        omega
  | four above below =>
    have hlead := lead?_four (v / 64 / 64 / 64) (by omega)
    rw [row, row, row, row, List.foldl_append, List.foldl_append, List.foldl_append, List.foldl_cons,
      List.foldl_nil, List.foldl_cons, List.foldl_nil, List.foldl_cons, List.foldl_nil,
      List.foldl_cons, List.foldl_nil, next_of_lead hlead, next_continuation, if_neg (by omega),
      next_continuation_free (by omega), if_neg (by omega), next_continuation_free (by omega),
      if_pos (by omega)]
    · rw [show ((v / 64 / 64 / 64 * 64 + v / 64 / 64 % 64) * 64 + v / 64 % 64) * 64 + v % 64 = v by
        omega]
    · omega
    · split
      · have hlow : (0x90 : UInt8).toNat = 0x90 := rfl
        omega
      · exact Nat.le_add_right _ _
    · split
      · have hhigh : (0x8F : UInt8).toNat = 0x8F := rfl
        omega
      · have hhigh : (0xBF : UInt8).toNat = 0xBF := rfl
        omega

/-- The bytes of some characters are decoded to these characters, with nothing left open. -/
theorem foldl_next_encode (chars done : List Char) :
    (chars.flatMap String.utf8EncodeChar).foldl Decoding.next ⟨done, none⟩ =
      ⟨chars.reverse ++ done, none⟩ := by
  induction chars generalizing done with
  | nil => rfl
  | cons c chars ih =>
    obtain ⟨mark, n, shape, hrow⟩ := utf8EncodeChar_eq_row c
    rw [List.flatMap_cons, List.foldl_append, hrow, foldl_next_row shape, ih, Char.ofNat_toNat,
      List.reverse_cons, List.append_assoc, List.singleton_append]

/-- The bytes of a text are shown as that text. -/
theorem lossy_toUTF8 (text : String) : lossy text.toUTF8.toList = text := by
  rw [lossy, toList_toUTF8, foldl_next_encode]
  simp [Decoding.finish]

/-- Some bytes are a text if they are the bytes of one. -/
def IsText (bytes : List UInt8) : Prop :=
  ∃ text : String, text.toUTF8.toList = bytes

/-- Bytes are a text if and only if they can be read as one. -/
theorem isText_iff {bytes : List UInt8} : IsText bytes ↔ (ofBytes? bytes).isSome := by
  rw [Option.isSome_iff_exists, IsText]
  exact exists_congr fun _ => ofBytes?_eq_some_iff.symm

/-- Where some bytes are a text, showing them loses nothing. -/
theorem IsText.toList_lossy {bytes : List UInt8} (isText : IsText bytes) :
    (lossy bytes).toUTF8.toList = bytes := by
  obtain ⟨text, rfl⟩ := isText
  rw [lossy_toUTF8]

/-! ### Characters in ASCII -/

/-- The least number that a character which is being read can come to with its next byte. -/
def Partial.least (c : Partial) : Nat :=
  c.value * 64 + (c.low.toNat - 0x80)

/-- A character that is being read lies outside ASCII, whatever bytes come next. -/
structure Partial.IsLarge (c : Partial) : Prop where
  of_last : c.needed ≤ 1 → 0x80 ≤ c.least
  two_le : 2 ≤ c.least

/-- A character that needs at least two more bytes is large, if its next byte brings it to two at least. -/
theorem Partial.isLarge_of_more {c : Partial} (more : 1 < c.needed) (two_le : 2 ≤ c.least) : c.IsLarge :=
  ⟨fun last => absurd last (Nat.not_le_of_lt more), two_le⟩

/-- A character whose lead brings it to two is large whatever follows. -/
theorem Partial.isLarge_of_two_le_value {c : Partial} (two_le : 2 ≤ c.value) : c.IsLarge where
  of_last _ := by
    unfold Partial.least
    omega
  two_le := by
    unfold Partial.least
    omega

/-- A byte begins a character in ASCII and is this character, or it begins one outside. -/
theorem lead?_cases {byte low high : UInt8} {needed value : Nat}
    (begins : lead? byte = some (needed, low, high, value)) :
    needed = 0 ∧ value = byte.toNat ∨
      needed ≠ 0 ∧ Partial.IsLarge ⟨needed, low, high, value⟩ := by
  have hfirst {needed value : Nat} {low high : UInt8} (pos : 0 < value) :
      2 ≤ Partial.least ⟨needed, low, high, value⟩ := by
    unfold Partial.least
    simp only
    omega
  have hthree : 1 < 3 := by decide
  unfold lead? at begins
  simp only at begins
  split_ifs at begins with ascii two three surrogates threes four fours last <;> cases begins
  · exact .inl ⟨rfl, rfl⟩
  · refine .inr ⟨one_ne_zero, Partial.isLarge_of_two_le_value ?_⟩
    show 2 ≤ byte.toNat - 0xC0
    omega
  · rw [three]
    exact .inr ⟨two_ne_zero, Partial.isLarge_of_more Nat.one_lt_two (by decide)⟩
  · exact .inr ⟨two_ne_zero, Partial.isLarge_of_more Nat.one_lt_two (hfirst (by omega))⟩
  · exact .inr ⟨two_ne_zero, Partial.isLarge_of_more Nat.one_lt_two (hfirst (by omega))⟩
  · rw [four]
    exact .inr ⟨three_ne_zero, Partial.isLarge_of_more hthree (by decide)⟩
  · exact .inr ⟨three_ne_zero, Partial.isLarge_of_more hthree (hfirst (by omega))⟩
  · exact .inr ⟨three_ne_zero, Partial.isLarge_of_more hthree (hfirst (by omega))⟩

section Ascii

variable {c : Char} {decoding : Decoding} {byte : UInt8} {bytes : List UInt8}

/-- A character in ASCII has not been read, and is not being read. -/
structure Decoding.Lacks (c : Char) (decoding : Decoding) : Prop where
  notMem : c ∉ decoding.done
  isLarge : ∀ begun ∈ decoding.open?, begun.IsLarge

/-- A number that is not the one of a character does not give this character, be it a number of a character
or not. -/
theorem ofNat_ne {n : Nat} (positive : c.toNat ≠ 0) (different : n ≠ c.toNat) : Char.ofNat n ≠ c := by
  rintro rfl
  by_cases valid : n.isValidChar
  · have hchar : Char.ofNat n = Char.ofNatAux n valid := dif_pos valid
    exact different (congrArg Char.toNat hchar).symm
  · have hnull : Char.ofNat n = Char.ofNat 0 := dif_neg valid
    exact positive (congrArg Char.toNat hnull)

/-- What stands for bytes that cannot be read lies outside ASCII. -/
theorem ne_replacement (ascii : c.toNat < 0x80) : c ≠ replacement := by
  rintro rfl
  exact absurd ascii (by decide)

/-- A byte that is not a character in ASCII does not begin it either. -/
theorem Decoding.lacks_begin {done : List Char} (notMem : c ∉ done) (positive : c.toNat ≠ 0)
    (ascii : c.toNat < 0x80) (different : byte.toNat ≠ c.toNat) : (Decoding.begin done byte).Lacks c := by
  unfold Decoding.begin
  cases begins : lead? byte with
  | none => exact ⟨List.not_mem_cons_of_ne_of_not_mem (ne_replacement ascii) notMem, by simp⟩
  | some shape =>
    obtain ⟨needed, low, high, value⟩ := shape
    rcases lead?_cases begins with ⟨rfl, rfl⟩ | ⟨more, large⟩
    · exact ⟨List.not_mem_cons_of_ne_of_not_mem (ofNat_ne positive different).symm notMem, by simp⟩
    · obtain ⟨needed, rfl⟩ := Nat.exists_eq_succ_of_ne_zero more
      exact ⟨notMem, by simpa using large⟩

/-- A character in ASCII is only read from its own byte. -/
theorem Decoding.Lacks.next (lacks : decoding.Lacks c) (positive : c.toNat ≠ 0) (ascii : c.toNat < 0x80)
    (different : byte.toNat ≠ c.toNat) : (decoding.next byte).Lacks c := by
  obtain ⟨done, open?⟩ := decoding
  obtain ⟨notMem, isLarge⟩ := lacks
  unfold Decoding.next
  cases open? with
  | none => exact lacks_begin notMem positive ascii different
  | some begun =>
    have large := isLarge begun rfl
    simp only
    split_ifs with inside last
    · have hlow := UInt8.le_iff_toNat_le.1 inside.1
      -- The last byte gives a number beyond ASCII.
      have hleast := large.of_last last
      unfold Partial.least at hleast
      refine ⟨List.not_mem_cons_of_ne_of_not_mem (ofNat_ne positive ?_).symm notMem, by simp⟩
      omega
    · have hlow := UInt8.le_iff_toNat_le.1 inside.1
      have htwo := large.two_le
      unfold Partial.least at htwo
      refine ⟨notMem, fun further isFurther => ?_⟩
      cases isFurther
      refine Partial.isLarge_of_two_le_value ?_
      show 2 ≤ begun.value * 64 + (byte.toNat - 0x80)
      omega
    · exact lacks_begin (List.not_mem_cons_of_ne_of_not_mem (ne_replacement ascii) notMem) positive ascii
        different

/-- A character in ASCII is shown only where its byte is. -/
theorem notMem_toList_lossy (positive : c.toNat ≠ 0) (ascii : c.toNat < 0x80)
    (notMem : ∀ byte ∈ bytes, byte.toNat ≠ c.toNat) : c ∉ (lossy bytes).toList := by
  have hstart : Decoding.Lacks c {} := ⟨List.not_mem_nil, by simp⟩
  have hlacks : (bytes.foldl Decoding.next {}).Lacks c :=
    List.foldlRecOn bytes Decoding.next hstart fun _ lacks _ mem => lacks.next positive ascii (notMem _ mem)
  unfold lossy Decoding.finish
  rw [String.toList_ofList, List.mem_reverse]
  split
  · exact hlacks.notMem
  · exact List.not_mem_cons_of_ne_of_not_mem (ne_replacement ascii) hlacks.notMem

/-! ### Showing something -/

/-- A byte that is read is a character, or belongs to one that is being read. -/
theorem Decoding.next_done_ne_nil (decoding : Decoding) (byte : UInt8) :
    (decoding.next byte).done ≠ [] ∨ (decoding.next byte).open? ≠ none := by
  have hbegin (done : List Char) :
      (Decoding.begin done byte).done ≠ [] ∨ (Decoding.begin done byte).open? ≠ none := by
    unfold Decoding.begin
    split
    · exact .inl (List.cons_ne_nil _ _)
    · exact .inl (List.cons_ne_nil _ _)
    · exact .inr (Option.some_ne_none _)
  unfold Decoding.next
  split
  · exact hbegin _
  · simp only
    split_ifs
    · exact .inl (List.cons_ne_nil _ _)
    · exact .inr (Option.some_ne_none _)
    · exact hbegin _

/-- Once something was read, or is being read, the text is not empty. -/
theorem Decoding.finish_ne_empty (nonempty : decoding.done ≠ [] ∨ decoding.open? ≠ none) :
    decoding.finish ≠ "" := by
  intro empty
  have hchars := congrArg String.toList empty
  unfold Decoding.finish at hchars
  rw [String.toList_ofList, String.toList_empty, List.reverse_eq_nil_iff] at hchars
  split at hchars
  · next finished => exact nonempty.elim (· hchars) (· finished)
  · exact List.cons_ne_nil _ _ hchars

/-- Some bytes never show as an empty text. -/
theorem lossy_ne_empty (ne_nil : bytes ≠ []) : lossy bytes ≠ "" := by
  have hlast := bytes.dropLast_append_getLast ne_nil
  rw [lossy, ← hlast, List.foldl_append, List.foldl_cons, List.foldl_nil]
  exact Decoding.finish_ne_empty (Decoding.next_done_ne_nil _ _)

end Ascii

/-! ### The order of texts -/

theorem ofNat_lt_ofNat {k m : Nat} (lt : k < m) (byte : m < 256) : UInt8.ofNat k < UInt8.ofNat m := by
  rw [UInt8.lt_iff_toNat_lt, UInt8.toNat_ofNat', UInt8.toNat_ofNat']
  omega

/-- The first byte of a character is a byte. -/
theorem Shape.first_lt {v mark n : Nat} (shape : Shape v mark n) : mark + v / 64 ^ n < 256 := by
  cases shape <;> omega

/-- Of two numbers of different shapes the larger one has the larger first byte. -/
theorem Shape.eq_or_first_lt {v w mark mark' n n' : Nat} (shape : Shape v mark n)
    (shape' : Shape w mark' n') (lt : v < w) :
    mark = mark' ∧ n = n' ∨ mark + v / 64 ^ n < mark' + w / 64 ^ n' := by
  cases shape <;> cases shape' <;> omega

theorem row_eq_cons (mark n v : Nat) :
    ∃ rest, row mark n v = .ofNat (mark + v / 64 ^ n) :: rest := by
  induction n generalizing v with
  | zero => exact ⟨[], by rw [row, Nat.pow_zero, Nat.div_one]⟩
  | succ n ih =>
    obtain ⟨rest, hrest⟩ := ih (v / 64)
    refine ⟨rest ++ [.ofNat (0x80 + v % 64)], ?_⟩
    rw [row, hrest, Nat.div_div_eq_div_mul, Nat.pow_succ', List.cons_append]

/-- Rows of one shape are in the order of their numbers, whatever follows them. -/
theorem row_append_lt {mark n v w : Nat} (lt : v < w) (byte : mark + w / 64 ^ n < 256)
    (after other : List UInt8) : row mark n v ++ after < row mark n w ++ other := by
  induction n generalizing v w after other with
  | zero =>
    rw [Nat.pow_zero, Nat.div_one] at byte
    exact List.cons_lt_cons_iff.2 (.inl (ofNat_lt_ofNat (by omega) byte))
  | succ n ih =>
    rw [row, row, List.append_assoc, List.append_assoc]
    rcases Nat.lt_or_eq_of_le (Nat.div_le_div_right (c := 64) lt.le) with hlt | heq
    · rw [Nat.pow_succ', ← Nat.div_div_eq_div_mul] at byte
      exact ih hlt byte _ _
    · -- Only the last byte differs.
      rw [heq]
      refine List.append_left_lt (List.cons_lt_cons_iff.2 (.inl ?_))
      exact ofNat_lt_ofNat (by omega) (by omega)

/-- A smaller character has smaller bytes, whatever comes behind: the shapes are in the order of their
marks, and numbers of one shape in the order of their bytes. -/
theorem utf8EncodeChar_append_lt {c d : Char} (lt : c < d) (after other : List UInt8) :
    String.utf8EncodeChar c ++ after < String.utf8EncodeChar d ++ other := by
  obtain ⟨mark, n, shape, hc⟩ := utf8EncodeChar_eq_row c
  obtain ⟨mark', n', shape', hd⟩ := utf8EncodeChar_eq_row d
  rw [hc, hd]
  rcases shape.eq_or_first_lt shape' lt with ⟨rfl, rfl⟩ | hfirst
  · exact row_append_lt lt shape'.first_lt after other
  · obtain ⟨rest, hrest⟩ := row_eq_cons mark n c.toNat
    obtain ⟨rest', hrest'⟩ := row_eq_cons mark' n' d.toNat
    rw [hrest, hrest']
    exact List.cons_lt_cons_iff.2 (.inl (ofNat_lt_ofNat hfirst shape'.first_lt))

/-- Texts come in the same order by their characters and by their bytes. -/
theorem flatMap_encode_lt {chars others : List Char} (lt : chars < others) :
    chars.flatMap String.utf8EncodeChar < others.flatMap String.utf8EncodeChar := by
  induction chars generalizing others with
  | nil =>
    cases others with
    | nil => exact absurd lt (List.lt_irrefl _)
    | cons d others =>
      obtain ⟨mark, n, _, hrow⟩ := utf8EncodeChar_eq_row d
      obtain ⟨rest, hrest⟩ := row_eq_cons mark n d.toNat
      rw [List.flatMap_cons, hrow, hrest]
      exact List.nil_lt_cons _ _
  | cons c chars ih =>
    cases others with
    | nil => exact absurd lt (List.not_lt_nil _)
    | cons d others =>
      rw [List.flatMap_cons, List.flatMap_cons]
      rcases List.cons_lt_cons_iff.1 lt with first | ⟨rfl, rest⟩
      · exact utf8EncodeChar_append_lt first _ _
      · exact List.append_left_lt (ih rest)

/-- Texts are in the order of their bytes. -/
theorem toList_toUTF8_lt_iff {text other : String} :
    text.toUTF8.toList < other.toUTF8.toList ↔ text < other := by
  rw [String.lt_iff_toList_lt, toList_toUTF8, toList_toUTF8]
  constructor
  · intro lt
    rcases lt_trichotomy text.toList other.toList with h | h | h
    · exact h
    · rw [h] at lt
      exact absurd lt (List.lt_irrefl _)
    · exact absurd lt (List.lt_asymm (flatMap_encode_lt h))
  · exact flatMap_encode_lt

end CodeCensus.Text

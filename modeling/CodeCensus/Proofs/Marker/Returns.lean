import CodeCensus.Census.Markers
import CodeCensus.Proofs.Census.Agreement
import CodeCensus.Proofs.Marker.Grammar

/-!
# Markers and carriage returns

A line is searched with everything that stands on it, and where line feeds come with carriage returns, the
carriage return is a part of the line.  That changes lines of two shapes.  An announcement with nothing
behind it is no marker, but a carriage return is something (`AwaitsBody`).  A closer at the end of a line
is not a part of the text, but in front of a carriage return it is not at the end (`EndsClosed`).  Every
other line has the same marker with and without a carriage return (`scanLine_return_eq_iff`), so these two
shapes decide whether a whole content has the same markers (`scan_withReturns_eq_iff`).

That the leftmost marker stays the leftmost one needs an argument.  Behind the opener of an announcement
with an empty body there is no sign of another opener, so such an announcement is to the right of all
others on its line (`AnnouncedAt.le_of_bare`), and what becomes of it is in front of no other marker.
-/

namespace CodeCensus.Marker

open Text (isBlank isMargin trimLine)

/-! ### Announcements with nothing behind them -/

section Announcements

variable {kind : Kind} {line text body : List Char}

/-- If no sign of an opener follows an opener, then no opener begins further on. -/
theorem opener_not_inside {opener other front rest behind : List Char} (hopener : opener ∈ openers)
    (hother : other ∈ openers) (plain : ∀ c ∈ rest, c ∉ openerSigns)
    (split : opener ++ rest = front ++ (other ++ behind)) : front = [] := by
  have hsigned : ∀ other ∈ openers, other.any (· ∈ openerSigns) = true := by decide
  -- A piece from the end of an opener has no opener in it, and an opener that begins with such a piece
  -- goes on with a sign.
  have hpieces : ∀ opener ∈ openers, ∀ piece ∈ opener.tails, piece = opener ∨ ∀ other ∈ openers,
      ¬ other <+: piece ∧ (piece <+: other → (other.drop piece.length).any (· ∈ openerSigns) = true) := by
    decide
  rcases List.append_eq_append_iff.1 split with ⟨gap, -, hrest⟩ | ⟨piece, hpiece, hsame⟩
  · obtain ⟨c, hc, hsign⟩ := List.any_eq_true.1 (hsigned other hother)
    have hmem : c ∈ rest := by
      rw [hrest]
      exact List.mem_append_right gap (List.mem_append_left behind hc)
    exact absurd (of_decide_eq_true hsign) (plain c hmem)
  · have hmem : piece ∈ opener.tails := (List.mem_tails piece opener).2 ⟨front, hpiece.symm⟩
    rcases hpieces opener hopener piece hmem with whole | apart
    · rw [whole] at hpiece
      exact List.self_eq_append_left.1 hpiece
    · obtain ⟨notInside, goesOn⟩ := apart other hother
      rcases List.append_eq_append_iff.1 hsame with ⟨more, hmore, -⟩ | ⟨more, hmore, hrest⟩
      · exact absurd ⟨more, hmore.symm⟩ notInside
      · obtain ⟨c, hc, hsign⟩ := List.any_eq_true.1 (goesOn ⟨more, hmore.symm⟩)
        rw [hmore, List.drop_left] at hc
        have hmem : c ∈ rest := by
          rw [hrest]
          exact List.mem_append_left behind hc
        exact absurd (of_decide_eq_true hsign) (plain c hmem)

/-- No announcement begins inside one with an empty body. -/
theorem Announces.front_eq_nil {other : Kind} {front : List Char} (bare : Announces kind text [])
    (announced : AnnouncedAt other text front body) : front = [] := by
  obtain ⟨opener, hopener, blanks, word, separator, rfl, areBlank, keyword, separates⟩ := bare
  obtain ⟨-, split, opener', hopener', blanks', word', separator', rfl, -⟩ := announced
  have hsigns : ∀ c ∈ openerSigns, decide (isBlank c = false ∧ c ≠ ':') = true := by
    rw [← List.all_eq_true]
    decide
  have plain : ∀ c ∈ blanks ++ (word ++ [separator]), c ∉ openerSigns := by
    intro c hc sign
    obtain ⟨notBlank, notColon⟩ := of_decide_eq_true (hsigns c sign)
    rw [List.mem_append, List.mem_append, List.mem_singleton] at hc
    rcases hc with hblank | hletter | rfl
    · exact absurd (areBlank c hblank) (by simp [notBlank])
    · exact (of_mem_keyword keyword hletter).2 sign
    · rcases separates with colon | blank
      · exact notColon colon
      · exact absurd blank (by simp [notBlank])
  exact opener_not_inside hopener hopener' plain split

/-- At one place a kind is announced with one body at most. -/
theorem Announces.body_unique {body' : List Char} (one : Announces kind text body)
    (two : Announces kind text body') : body = body' := by
  obtain ⟨opener, hopener, blanks, word, separator, rfl, areBlank, keyword, -⟩ := one
  obtain ⟨opener', hopener', blanks', word', separator', split, areBlank', keyword', -⟩ := two
  have hsame : opener = opener' := opener_unique hopener hopener' split
  rw [hsame] at split
  have hbehind := List.append_cancel_left split
  have hwords : word ++ separator :: body = word' ++ separator' :: body' := by
    rw [← dropWhile_blanks keyword areBlank, hbehind, dropWhile_blanks keyword' areBlank']
  have hlength : word.length = word'.length :=
    (List.Forall₂.length_eq keyword).symm.trans (List.Forall₂.length_eq keyword')
  exact (List.cons.inj (List.append_inj_right hwords hlength)).2

/-- An announcement with an empty body is to the right of all others. -/
theorem AnnouncedAt.le_of_bare {other : Kind} {place front : List Char}
    (bare : AnnouncedAt kind line place []) (announced : AnnouncedAt other line front body) :
    front.length ≤ place.length := by
  obtain ⟨text, rfl, announces⟩ := bare
  obtain ⟨text', split, announces'⟩ := announced
  rcases List.append_eq_append_iff.1 split with ⟨more, rfl, hmore⟩ | ⟨more, rfl, -⟩
  · have hnil : more = [] := announces.front_eq_nil ⟨text', hmore, announces'⟩
    rw [hnil, List.append_nil]
  · rw [List.length_append]
    exact Nat.le_add_right front.length more.length

/-- A marker of the same kind is not at the same place. -/
theorem AnnouncedAt.lt_of_bare {place front : List Char} (bare : AnnouncedAt kind line place [])
    (marked : MarkedAt kind line front body) : front.length < place.length := by
  have hle : front.length ≤ place.length := bare.le_of_bare marked.2
  obtain ⟨text, rfl, announces⟩ := bare
  obtain ⟨visible, text', split, announces'⟩ := marked
  refine Nat.lt_of_le_of_ne hle fun same => ?_
  have htext : text = text' := List.append_inj_right split same.symm
  rw [← htext] at announces'
  exact visible (announces'.body_unique announces)

end Announcements

/-! ### One more character -/

/-- A marker of the kind is announced on a line, with nothing behind its separator. -/
def EndsBare (line : List Char) (kind : Kind) : Prop :=
  ∃ front, AnnouncedAt kind line front []

/-- Any further character at its end makes this a line with a marker of the kind: it ends with an
announcement, and neither the kind nor an earlier one has a marker on it. -/
structure AwaitsBody (line : List Char) (kind : Kind) : Prop where
  bare : EndsBare line kind
  unmarked : ∀ front body, ¬ MarkedAt kind line front body
  first : ∀ other ∈ kind.earlier,
    ¬ EndsBare line other ∧ ∀ front body, ¬ MarkedAt other line front body

section Concat

variable {kind : Kind} {c : Char} {line front body : List Char}

/-- One more character is a part of the body. -/
theorem markedAt_concat_iff : MarkedAt kind (line ++ [c]) front body ↔
    ∃ inner, body = inner ++ [c] ∧ AnnouncedAt kind line front inner := by
  constructor
  · rintro ⟨visible, text, split, opener, hopener, blanks, word, separator, rfl, parts⟩
    obtain ⟨inner, d, rfl⟩ := (List.eq_nil_or_concat' body).resolve_left visible
    have hregroup : front ++ (opener ++ (blanks ++ (word ++ separator :: (inner ++ [d])))) =
        (front ++ (opener ++ (blanks ++ (word ++ separator :: inner)))) ++ [d] := by
      simp only [List.append_assoc, List.cons_append]
    rw [hregroup] at split
    obtain ⟨hline, hlast⟩ := List.append_inj' split rfl
    obtain rfl : c = d := (List.cons.inj hlast).1
    exact ⟨inner, rfl, _, hline, opener, hopener, blanks, word, separator, rfl, parts⟩
  · rintro ⟨inner, rfl, text, rfl, opener, hopener, blanks, word, separator, rfl, parts⟩
    refine ⟨List.concat_ne_nil c inner, _, List.append_assoc _ _ _, opener, hopener, blanks, word,
      separator, ?_, parts⟩
    simp only [List.append_assoc, List.cons_append]

/-- A further character makes no marker of a line, unless the line ends bare and is waiting for one. -/
theorem not_markedAt_concat_iff : (∀ front body, ¬ MarkedAt kind (line ++ [c]) front body) ↔
    ¬ EndsBare line kind ∧ ∀ front body, ¬ MarkedAt kind line front body := by
  constructor
  · intro unmarked
    constructor
    · rintro ⟨front, bare⟩
      exact unmarked front [c] (markedAt_concat_iff.2 ⟨[], rfl, bare⟩)
    · intro front body marked
      exact unmarked front (body ++ [c]) (markedAt_concat_iff.2 ⟨body, rfl, marked.2⟩)
  · rintro ⟨notBare, unmarked⟩ front body marked
    obtain ⟨inner, -, announced⟩ := markedAt_concat_iff.1 marked
    rcases eq_or_ne inner [] with rfl | visible
    · exact notBare ⟨front, announced⟩
    · exact unmarked front inner ⟨visible, announced⟩

/-- The marker of a line with one more character is the one that was awaited, or it is the marker that the
line has, and no earlier kind is awaited. -/
theorem isMarker_concat_iff : IsMarker (line ++ [c]) kind front body ↔
    (body = [c] ∧ AnnouncedAt kind line front [] ∧ AwaitsBody line kind) ∨
      ∃ inner, body = inner ++ [c] ∧ IsMarker line kind front inner ∧
        ∀ other ∈ kind.earlier, ¬ EndsBare line other := by
  constructor
  · rintro ⟨marked, leftmost, first⟩
    have hfirst : ∀ other ∈ kind.earlier,
        ¬ EndsBare line other ∧ ∀ front body, ¬ MarkedAt other line front body :=
      fun other hother => not_markedAt_concat_iff.1 (first other hother)
    have hleftmost : ∀ other body', MarkedAt kind line other body' → front.length ≤ other.length :=
      fun other body' hother => leftmost other _ (markedAt_concat_iff.2 ⟨body', rfl, hother.2⟩)
    obtain ⟨inner, rfl, announced⟩ := markedAt_concat_iff.1 marked
    -- Either the new character is the whole body, or there was a body in front of it.
    rcases eq_or_ne inner [] with rfl | visible
    · refine Or.inl ⟨rfl, announced, ⟨front, announced⟩, fun other body' hother => ?_, hfirst⟩
      have hlt : other.length < front.length := announced.lt_of_bare hother
      exact absurd (hleftmost other body' hother) (Nat.not_le.2 hlt)
    · exact Or.inr ⟨inner, rfl, ⟨⟨visible, announced⟩, hleftmost, fun other hother =>
        (hfirst other hother).2⟩, fun other hother => (hfirst other hother).1⟩
  · rintro (⟨rfl, announced, awaits⟩ | ⟨inner, rfl, marker, notBare⟩)
    · refine ⟨markedAt_concat_iff.2 ⟨[], rfl, announced⟩, fun other body' hother => ?_, fun other hother =>
        not_markedAt_concat_iff.2 (awaits.first other hother)⟩
      obtain ⟨inner, -, hinner⟩ := markedAt_concat_iff.1 hother
      -- Another bare announcement of the kind is no further to the left, and there are no markers.
      rcases eq_or_ne inner [] with rfl | visible
      · exact hinner.le_of_bare announced
      · exact absurd ⟨visible, hinner⟩ (awaits.unmarked other inner)
    · refine ⟨markedAt_concat_iff.2 ⟨inner, rfl, marker.marked.2⟩, fun other body' hother => ?_,
        fun other hother => not_markedAt_concat_iff.2 ⟨notBare other hother, marker.first other hother⟩⟩
      obtain ⟨inner', -, hinner⟩ := markedAt_concat_iff.1 hother
      rcases eq_or_ne inner' [] with rfl | visible
      · exact hinner.le_of_bare marker.marked.2
      · exact marker.leftmost other inner' ⟨visible, hinner⟩

end Concat

/-! ### A carriage return -/

/-- The body of the marker of a line ends with a closer, with something in front of it. -/
def EndsClosed (line : List Char) : Prop :=
  ∃ kind front body, IsMarker line kind front body ∧
    ∃ closer ∈ closers, ∃ inner, inner ≠ [] ∧ body = inner ++ closer

/-- A line whose marker is the same with a carriage return. -/
def KeepsMarker (line : List Char) : Prop :=
  (∀ kind, ¬ AwaitsBody line kind) ∧ ¬ EndsClosed line

section Return

variable {kind : Kind} {line front body inner closer text : List Char}

/-- In front of a carriage return a closer is not dropped. -/
theorem dropCloser_return (body : List Char) : dropCloser (body ++ ['\r']) = body ++ ['\r'] := by
  have hlast : ∀ closer ∈ closers, closer ≠ [] ∧ closer.getLast? ≠ some '\r' := by decide
  apply captures_iff.1
  refine Or.inr ⟨rfl, fun closer hcloser inner _ split => ?_⟩
  obtain ⟨visible, notReturn⟩ := hlast closer hcloser
  apply notReturn
  rw [← List.getLast?_append_of_ne_nil inner visible, ← split, List.getLast?_concat]

/-- A carriage return at the end is trimmed from the text of a marker, if there is any other. -/
theorem textOf_return (line body : List Char) : textOf (line ++ ['\r']) (body ++ ['\r']) =
    if trimLine body = [] then trimLine line else trimLine body := by
  rw [textOf_eq, dropCloser_return, Text.trimLine_return, Text.trimLine_return]

/-- A line with a carriage return has the marker that was awaited, with the whole line for its text, or the
marker that the line has without it, with all of its body. -/
theorem scanLine_return_eq_some_iff : scanLine (line ++ ['\r']) = some (kind, text) ↔
    (AwaitsBody line kind ∧ text = trimLine line) ∨
      ∃ front body, IsMarker line kind front body ∧ (∀ other ∈ kind.earlier, ¬ EndsBare line other) ∧
        text = if trimLine body = [] then trimLine line else trimLine body := by
  have hnothing : textOf (line ++ ['\r']) ['\r'] = trimLine line := textOf_return line []
  rw [scanLine_eq_some_iff]
  constructor
  · rintro ⟨front, body, marker, rfl⟩
    rcases isMarker_concat_iff.1 marker with ⟨rfl, -, awaits⟩ | ⟨inner, rfl, hmarker, notBare⟩
    · exact Or.inl ⟨awaits, hnothing⟩
    · exact Or.inr ⟨front, inner, hmarker, notBare, textOf_return line inner⟩
  · rintro (⟨awaits, rfl⟩ | ⟨front, body, marker, notBare, rfl⟩)
    · obtain ⟨front, bare⟩ := awaits.bare
      exact ⟨front, ['\r'], isMarker_concat_iff.2 (Or.inl ⟨rfl, bare, awaits⟩), hnothing⟩
    · exact ⟨front, body ++ ['\r'], isMarker_concat_iff.2 (Or.inr ⟨body, rfl, marker, notBare⟩),
        textOf_return line body⟩

/-- Where no closer is dropped, the text of a marker is that of its whole body. -/
theorem textOf_of_not_closed (notClosed : ¬ EndsClosed line) (marker : IsMarker line kind front body) :
    textOf line body = if trimLine body = [] then trimLine line else trimLine body := by
  have hdrop : dropCloser body = body := by
    apply captures_iff.1
    refine Or.inr ⟨rfl, fun closer hcloser inner visible split => ?_⟩
    exact notClosed ⟨kind, front, body, marker, closer, hcloser, inner, visible, split⟩
  rw [textOf_eq, hdrop]

/-- There is more to see on a line than in the body of its marker. -/
theorem MarkedAt.countP_lt (marked : MarkedAt kind line front body) :
    body.countP (!isMargin ·) < line.countP (!isMargin ·) := by
  have hopeners : ∀ opener ∈ openers, 0 < opener.countP (!isMargin ·) := by decide
  obtain ⟨-, text, rfl, opener, hopener, blanks, word, separator, rfl, -⟩ := marked
  have hopener := hopeners opener hopener
  simp only [List.countP_append, List.countP_cons]
  omega

/-- Without its closer the text of a marker is not what it is with it. -/
theorem textOf_ne_of_closed (marked : MarkedAt kind line front (inner ++ closer))
    (hcloser : closer ∈ closers) (visible : inner ≠ []) : textOf line (inner ++ closer) ≠
      if trimLine (inner ++ closer) = [] then trimLine line else trimLine (inner ++ closer) := by
  have hclosers : ∀ closer ∈ closers, 0 < closer.countP (!isMargin ·) := by decide
  have hcounts : (inner ++ closer).countP (!isMargin ·) =
      inner.countP (!isMargin ·) + closer.countP (!isMargin ·) := List.countP_append
  have hcloser' := hclosers closer hcloser
  have hdrop : dropCloser (inner ++ closer) = inner :=
    captures_iff.1 (Or.inl ⟨visible, closer, hcloser, rfl⟩)
  have hbody : trimLine (inner ++ closer) ≠ [] := by
    intro nothing
    have hcount := Text.countP_trimLine (inner ++ closer)
    rw [nothing, List.countP_nil] at hcount
    omega
  rw [textOf_eq, hdrop, if_neg hbody]
  intro same
  -- The two texts do not have the same number of visible characters.
  have hcount := congrArg (List.countP (!isMargin ·)) same
  rw [Text.countP_trimLine] at hcount
  by_cases nothing : trimLine inner = []
  · have hlt := marked.countP_lt
    rw [if_pos nothing, Text.countP_trimLine] at hcount
    omega
  · rw [if_neg nothing, Text.countP_trimLine] at hcount
    omega

/-- Exactly the lines of the two shapes do not have the same marker with a carriage return. -/
theorem scanLine_return_eq_iff : scanLine (line ++ ['\r']) = scanLine line ↔ KeepsMarker line := by
  constructor
  · intro same
    constructor
    · intro kind awaits
      have hfound : scanLine line = some (kind, trimLine line) :=
        same ▸ scanLine_return_eq_some_iff.2 (Or.inl ⟨awaits, rfl⟩)
      obtain ⟨front, body, marker, -⟩ := scanLine_eq_some_iff.1 hfound
      exact awaits.unmarked front body marker.marked
    · rintro ⟨kind, front, body, marker, closer, hcloser, inner, visible, rfl⟩
      have hfound : scanLine line = some (kind, textOf line (inner ++ closer)) :=
        scanLine_eq_some_iff.2 ⟨front, inner ++ closer, marker, rfl⟩
      rcases scanLine_return_eq_some_iff.1 (same.trans hfound) with
        ⟨awaits, -⟩ | ⟨front', body', marker', -, htext⟩
      · exact awaits.unmarked front _ marker.marked
      · have hbody : body' = inner ++ closer :=
          Option.some.inj (marker'.body?_eq.symm.trans marker.body?_eq)
        rw [hbody] at htext
        exact textOf_ne_of_closed marker.marked hcloser visible htext
  · rintro ⟨notAwaited, notClosed⟩
    cases hreturn : scanLine (line ++ ['\r']) with
    | some found =>
      obtain ⟨kind, text⟩ := found
      rcases scanLine_return_eq_some_iff.1 hreturn with ⟨awaits, -⟩ | ⟨front, body, marker, -, rfl⟩
      · exact absurd awaits (notAwaited kind)
      · exact (scanLine_eq_some_iff.2 ⟨front, body, marker, textOf_of_not_closed notClosed marker⟩).symm
    | none =>
      -- What is marked on the line is marked with the carriage return too.
      rw [eq_comm, Option.eq_none_iff_forall_ne_some]
      intro found hfound
      obtain ⟨kind, front, body, marked⟩ := scanLine_isSome_iff.1 (Option.isSome_of_eq_some hfound)
      have hmarked : (scanLine (line ++ ['\r'])).isSome := scanLine_isSome_iff.2
        ⟨kind, front, body ++ ['\r'], markedAt_concat_iff.2 ⟨body, rfl, marked.2⟩⟩
      rw [hreturn] at hmarked
      exact Bool.noConfusion hmarked

end Return

/-! ### Whole contents -/

/-- The markers of some lines that are numbered from a given number on. -/
def hitsFrom (number : Nat) (lines : List (List Char)) : List Hit :=
  (lines.zipIdx number).filterMap fun (line, number) =>
    (scanLine line).map fun (kind, text) => ⟨kind, String.ofList text, number⟩

section Contents

variable {number : Nat} {line line' : List Char} {lines lines' : List (List Char)}

theorem scan_eq_hitsFrom (content : String) : scan content = hitsFrom 1 (Text.lines content.toList) := rfl

/-- A line without a marker only counts as a line. -/
theorem hitsFrom_cons_of_eq_none (nothing : scanLine line = none) (number : Nat)
    (lines : List (List Char)) : hitsFrom number (line :: lines) = hitsFrom (number + 1) lines := by
  rw [hitsFrom, List.zipIdx_cons]
  refine List.filterMap_cons_none ?_
  simp only [nothing, Option.map_none]

/-- A line with a marker gives a hit with its number. -/
theorem hitsFrom_cons_of_eq_some {kind : Kind} {text : List Char}
    (found : scanLine line = some (kind, text)) (number : Nat) (lines : List (List Char)) :
    hitsFrom number (line :: lines) =
      ⟨kind, String.ofList text, number⟩ :: hitsFrom (number + 1) lines := by
  rw [hitsFrom, List.zipIdx_cons]
  refine List.filterMap_cons_some ?_
  simp only [found, Option.map_some]

/-- Hits have numbers from the first line on. -/
theorem le_line_of_mem_hitsFrom {hit : Hit} (mem : hit ∈ hitsFrom number lines) : number ≤ hit.line := by
  obtain ⟨⟨line, place⟩, hline, hhit⟩ := List.mem_filterMap.1 mem
  obtain ⟨⟨kind, text⟩, -, rfl⟩ := Option.map_eq_some_iff.1 hhit
  exact (List.mem_zipIdx hline).1

/-- The number of a marker tells which line it is from. -/
theorem hitsFrom_cons_eq_iff : hitsFrom number (line :: lines) = hitsFrom number (line' :: lines') ↔
    scanLine line = scanLine line' ∧ hitsFrom (number + 1) lines = hitsFrom (number + 1) lines' := by
  have hbehind : ∀ (hit : Hit) (lines : List (List Char)), hit.line = number →
      hit ∉ hitsFrom (number + 1) lines := by
    intro hit lines hnumber mem
    exact absurd (le_line_of_mem_hitsFrom mem) (by omega)
  -- A marker on one side only has a number that no later line has.
  cases hline : scanLine line with
  | none =>
    cases hline' : scanLine line' with
    | none => simp [hitsFrom_cons_of_eq_none hline, hitsFrom_cons_of_eq_none hline']
    | some found =>
      obtain ⟨kind, text⟩ := found
      rw [hitsFrom_cons_of_eq_none hline, hitsFrom_cons_of_eq_some hline']
      refine iff_of_false (fun same => ?_) (by simp)
      exact hbehind ⟨kind, String.ofList text, number⟩ lines rfl (same ▸ List.mem_cons_self)
  | some found =>
    obtain ⟨kind, text⟩ := found
    cases hline' : scanLine line' with
    | none =>
      rw [hitsFrom_cons_of_eq_some hline, hitsFrom_cons_of_eq_none hline']
      refine iff_of_false (fun same => ?_) (by simp)
      exact hbehind ⟨kind, String.ofList text, number⟩ lines' rfl (same ▸ List.mem_cons_self)
    | some found' =>
      obtain ⟨kind', text'⟩ := found'
      rw [hitsFrom_cons_of_eq_some hline, hitsFrom_cons_of_eq_some hline']
      simp [String.ofList_inj]

/-- With carriage returns there are the same markers exactly if every line that gets one keeps its
marker. -/
theorem hitsFrom_returned_eq_iff (lines : List (List Char)) (number : Nat) :
    hitsFrom number (Text.returned lines) = hitsFrom number lines ↔
      ∀ line ∈ lines.dropLast, KeepsMarker line := by
  induction lines generalizing number with
  | nil => simp [Text.returned]
  | cons line rest ih =>
    cases rest with
    | nil => simp [Text.returned]
    | cons next rest =>
      rw [Text.returned_cons (List.cons_ne_nil next rest), hitsFrom_cons_eq_iff, scanLine_return_eq_iff, ih,
        List.dropLast_cons_of_ne_nil (List.cons_ne_nil next rest), List.forall_mem_cons]

end Contents

/-- The contents of all files with a carriage return in front of every line feed. -/
def returnedContents (contents : Contents) : Contents := fun path =>
  (contents path).map fun content => String.ofList (Text.withReturns content.toList)

open Census in
/-- The files that can be read are the same, and so are their markers where all lines keep them. -/
theorem hits_returnedContents {contents : Contents} {files : List SourceFile}
    (keeps : ∀ entry ∈ readable contents files, ∀ line ∈ (Text.lines entry.2.toList).dropLast,
      KeepsMarker line) :
    MarkerTable.hits (readable (returnedContents contents) files) =
      MarkerTable.hits (readable contents files) := by
  have hreadable : readable (returnedContents contents) files = (readable contents files).map
      fun entry => (entry.1, String.ofList (Text.withReturns entry.2.toList)) := by
    rw [readable_eq_filterMap, readable_eq_filterMap, List.map_filterMap]
    simp only [returnedContents, Option.map_map, Function.comp_def]
  rw [hreadable, MarkerTable.hits, MarkerTable.hits, List.flatMap_map]
  refine List.flatMap_congr ?_
  rintro ⟨file, content⟩ hentry
  have hscan : scan (String.ofList (Text.withReturns content.toList)) = scan content := by
    rw [scan_eq_hitsFrom, scan_eq_hitsFrom, String.toList_ofList, Text.lines_withReturns,
      hitsFrom_returned_eq_iff]
    exact keeps (file, content) hentry
  simp only [hscan]

open Census in
/-- A content has the same markers with carriage returns in front of its line feeds exactly if every line
in front of a line feed keeps its marker.  Where that is so for all files that can be read, the tables of
their markers are the same.  With a carriage return a line has the marker that was awaited, with the whole
line for its text, or the marker that it has without one, with all of its body. -/
theorem scan_withReturns_eq_iff (content : String) (contents : Contents) (files : List SourceFile)
    (length : Nat) :
    (scan (String.ofList (Text.withReturns content.toList)) = scan content ↔
        ∀ line ∈ (Text.lines content.toList).dropLast, KeepsMarker line) ∧
      ((∀ entry ∈ readable contents files, ∀ line ∈ (Text.lines entry.2.toList).dropLast,
          KeepsMarker line) →
        MarkerTable.ofFiles (returnedContents contents) files length =
          MarkerTable.ofFiles contents files length) ∧
      ∀ (line : List Char) (kind : Kind) (text : List Char),
        scanLine (line ++ ['\r']) = some (kind, text) ↔
          (AwaitsBody line kind ∧ text = trimLine line) ∨
            ∃ front body, IsMarker line kind front body ∧
              (∀ other ∈ kind.earlier, ¬ EndsBare line other) ∧
              text = if trimLine body = [] then trimLine line else trimLine body := by
  refine ⟨?_, ?_, ?_⟩
  · rw [scan_eq_hitsFrom, scan_eq_hitsFrom, String.toList_ofList, Text.lines_withReturns]
    exact hitsFrom_returned_eq_iff (Text.lines content.toList) 1
  · intro keeps
    have hhits := hits_returnedContents keeps
    rw [readable, readable] at hhits
    rw [MarkerTable.ofFiles, MarkerTable.ofFiles, MarkerTable.ofAnswers, MarkerTable.ofAnswers, hhits]
  · intro line kind text
    exact scanLine_return_eq_some_iff

open Census in
/-- The line in front of the line feed has a marker that is neither awaited nor closed. -/
theorem scan_withReturns_eq_iff_open :
    scan "// TODO: x\r\nf()" = [⟨.todo, "x", 1⟩] ∧
      (∀ line ∈ (Text.lines "// TODO: x\nf()".toList).dropLast, KeepsMarker line) ∧
      MarkerTable.ofFiles (returnedContents markedContents) [markedFile] 0 =
        MarkerTable.ofFiles markedContents [markedFile] 0 := by
  have hreturns : String.ofList (Text.withReturns "// TODO: x\nf()".toList) = "// TODO: x\r\nf()" := by
    decide
  have hscan : scan "// TODO: x\nf()" = [⟨.todo, "x", 1⟩] := by decide
  have hscanReturns : scan "// TODO: x\r\nf()" = [⟨.todo, "x", 1⟩] := by decide
  have hreadable : readable markedContents [markedFile] = [(markedFile, "// TODO: x\nf()")] := by decide
  obtain ⟨hcontent, htable, -⟩ :=
    scan_withReturns_eq_iff "// TODO: x\nf()" markedContents [markedFile] 0
  have keeps : ∀ line ∈ (Text.lines "// TODO: x\nf()".toList).dropLast, KeepsMarker line := by
    apply hcontent.1
    rw [hreturns, hscan, hscanReturns]
  refine ⟨hscanReturns, keeps, htable ?_⟩
  rw [hreadable]
  intro entry hentry
  rw [List.mem_singleton.1 hentry]
  exact keeps

/-- Not every content has the same markers: here the closer becomes a part of the text. -/
theorem not_forall_scan_withReturns : ¬ ∀ content : String, '\r' ∉ content.toList →
    scan (String.ofList (Text.withReturns content.toList)) = scan content := by
  intro all
  have hclosed : scan (String.ofList (Text.withReturns "/* HACK: temporary */\n".toList)) =
      [⟨.hack, "temporary */", 1⟩] := by decide
  have hscan : scan "/* HACK: temporary */\n" = [⟨.hack, "temporary", 1⟩] := by decide
  have hsame := all "/* HACK: temporary */\n" (by decide)
  rw [hclosed, hscan] at hsame
  exact absurd hsame (by decide)

end CodeCensus.Marker

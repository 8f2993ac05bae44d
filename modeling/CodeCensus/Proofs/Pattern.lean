import CodeCensus.Proofs.Text

/-!
# Patterns with an order of preference

A pattern may fit the front of a text in several ways, and a search that goes back after a failure tries
them in an order: the alternatives as they are listed, a greedy repetition from its longest stretch down, a
reluctant one from its shortest stretch up.  `fits` lists all ways in this order, each with the part of the
text that it takes, so the way that such a search takes is the first one in the list, at the leftmost place
where there is any (`search?`).

What a search keeps of a text is then computed pattern by pattern.  A greedy repetition only ever takes its
longest stretch where what comes next cannot begin inside of it (`kept?_greedy_andThen`), and a reluctant
one stops as soon as what comes next fits (`kept?_reluctant_andThen`).
-/

namespace CodeCensus.Text

/-- A pattern for the front of a text. -/
inductive Pattern where
  /-- Fits without taking anything. -/
  | nothing
  /-- Fits at the end of the text. -/
  | atEnd
  /-- One character of a class. -/
  | one (accepts : Char → Bool)
  /-- One pattern and then another. -/
  | andThen (first second : Pattern)
  /-- One pattern, or else another. -/
  | orElse (first second : Pattern)
  /-- Any number of characters of a class, rather more than fewer. -/
  | greedy (accepts : Char → Bool)
  /-- At least one character of a class, rather fewer than more. -/
  | reluctant (accepts : Char → Bool)
  /-- A pattern whose part of the text is kept. -/
  | keep (inner : Pattern)

/-- A way in which a pattern fits: the part of the text that it takes, the part that is kept, and what is
left. -/
structure Fit where
  taken : List Char
  kept : Option (List Char)
  rest : List Char
  deriving DecidableEq, Repr

/-- Two fits, one behind the other.  What is kept last counts. -/
def Fit.andThen (first second : Fit) : Fit :=
  ⟨first.taken ++ second.taken, second.kept.or first.kept, second.rest⟩

namespace Pattern

/-! ### All ways to fit -/

/-- A text that is cut in two: its front and its rest. -/
abbrev Cut := List Char × List Char

/-- The stretches of a class at the front of a text, each with what is behind it, the shortest first. -/
def stretches (accepts : Char → Bool) : List Char → List Cut
  | [] => []
  | c :: text =>
    if accepts c then
      ([c], text) :: (stretches accepts text).map fun cut : Cut => (c :: cut.1, cut.2)
    else []

/-- The ways in which a pattern fits the front of a text, in the order in which they are tried. -/
def fits : Pattern → List Char → List Fit
  | nothing, text => [⟨[], none, text⟩]
  | atEnd, [] => [⟨[], none, []⟩]
  | atEnd, _ :: _ => []
  | one _, [] => []
  | one accepts, c :: text => if accepts c then [⟨[c], none, text⟩] else []
  | andThen first second, text =>
    (fits first text).flatMap fun fit => (fits second fit.rest).map fit.andThen
  | orElse first second, text => fits first text ++ fits second text
  | greedy accepts, text =>
    ((stretches accepts text).reverse ++ [([], text)]).map fun cut : Cut => ⟨cut.1, none, cut.2⟩
  | reluctant accepts, text =>
    (stretches accepts text).map fun cut : Cut => ⟨cut.1, none, cut.2⟩
  | keep inner, text => (fits inner text).map fun fit => { fit with kept := some fit.taken }

/-- The fit that is found: of the leftmost place with any fits, the first one. -/
def search? (pattern : Pattern) : List Char → Option Fit
  | [] => (fits pattern []).head?
  | c :: text => (fits pattern (c :: text)).head? <|> search? pattern text

/-- The given letters, each as one character of a class. -/
def spelled (accepts : Char → Char → Bool) (letters : List Char) : Pattern :=
  letters.foldr (fun letter rest => andThen (one (accepts letter)) rest) nothing

/-- The given text. -/
def literal (text : List Char) : Pattern :=
  spelled (· == ·) text

section Ways

variable {first second : Pattern} {accepts : Char → Bool} {text : List Char} {fit : Fit}

theorem mem_fits_nothing_iff : fit ∈ fits nothing text ↔ fit = ⟨[], none, text⟩ :=
  List.mem_singleton

theorem mem_fits_orElse_iff :
    fit ∈ fits (orElse first second) text ↔ fit ∈ fits first text ∨ fit ∈ fits second text :=
  List.mem_append

/-- One pattern fits and then another one, if the second one fits what the first one leaves. -/
theorem mem_fits_andThen_iff : fit ∈ fits (andThen first second) text ↔
    ∃ front ∈ fits first text, ∃ behind ∈ fits second front.rest, front.andThen behind = fit := by
  rw [fits, List.mem_flatMap]
  refine exists_congr fun front => and_congr_right fun _ => ?_
  rw [List.mem_map]

/-- The end fits at the end only. -/
theorem mem_fits_atEnd_iff : fit ∈ fits atEnd text ↔ text = [] ∧ fit = ⟨[], none, []⟩ := by
  cases text <;> simp [fits]

theorem mem_fits_one_iff : fit ∈ fits (one accepts) text ↔
    ∃ c rest, text = c :: rest ∧ accepts c ∧ fit = ⟨[c], none, rest⟩ := by
  cases text with
  | nil => simp [fits]
  | cons c rest =>
    by_cases hc : accepts c
    · simp [fits, hc]
    · simp [fits, hc]

end Ways

/-! ### What is kept -/

/-- What is kept in the first way to fit, if there is one. -/
def kept? (pattern : Pattern) (text : List Char) : Option (Option (List Char)) :=
  (fits pattern text).head?.map Fit.kept

section Kept

variable {first second pattern other : Pattern} {accepts : Char → Bool} {text : List Char}

/-- Behind fits that keep nothing, what is kept is what the second pattern keeps. -/
theorem kept?_andThen (silent : ∀ fit ∈ fits first text, fit.kept = none) :
    kept? (andThen first second) text =
      (fits first text).findSome? fun fit => kept? second fit.rest := by
  have hkept : ∀ fit ∈ fits first text,
      (((fits second fit.rest).map fit.andThen).head?).map Fit.kept = kept? second fit.rest := by
    intro fit hfit
    have hsame : Fit.kept ∘ fit.andThen = Fit.kept := by
      funext behind
      rw [Function.comp, Fit.andThen, silent fit hfit, Option.or_none]
    rw [List.head?_map, Option.map_map, hsame, kept?]
  rw [kept?, fits, List.head?_flatMap, List.map_findSome?]
  generalize fits first text = found at hkept
  induction found with
  | nil => rfl
  | cons fit found ih =>
    rw [List.findSome?_cons, List.findSome?_cons, Function.comp, hkept fit List.mem_cons_self,
      ih fun other hother => hkept other (List.mem_cons_of_mem fit hother)]

/-- The first of two alternatives counts if what comes next fits behind it. -/
theorem kept?_orElse_andThen : kept? (andThen (orElse first other) second) text =
    (kept? (andThen first second) text).or (kept? (andThen other second) text) := by
  have hfits : fits (andThen (orElse first other) second) text =
      fits (andThen first second) text ++ fits (andThen other second) text :=
    List.flatMap_append
  rw [kept?, hfits, List.head?_append, Option.map_or, kept?, kept?]

/-- Given letters fit in one way at most. -/
theorem fits_spelled (same : Char → Char → Bool) (letters text : List Char) :
    fits (spelled same letters) text =
      ((after? same letters text).map fun rest => ⟨text.take letters.length, none, rest⟩).toList := by
  induction letters generalizing text with
  | nil => rfl
  | cons letter letters ih =>
    cases text with
    | nil => rfl
    | cons c text =>
      have hfits : fits (spelled same (letter :: letters)) (c :: text) =
          (if same letter c then [Fit.mk [c] none text] else []).flatMap fun fit =>
            (fits (spelled same letters) fit.rest).map fit.andThen := rfl
      rw [hfits, after?]
      by_cases hsame : same letter c
      · rw [if_pos hsame, if_pos hsame, List.flatMap_singleton, ih]
        cases after? same letters text <;> rfl
      · rw [if_neg hsame, if_neg hsame]
        rfl

/-- A given text fits where it stands. -/
theorem mem_fits_literal_iff {letters : List Char} {fit : Fit} :
    fit ∈ fits (literal letters) text ↔ ∃ rest, text = letters ++ rest ∧ fit = ⟨letters, none, rest⟩ := by
  rw [literal, fits_spelled, Option.mem_toList, Option.map_eq_some_iff]
  refine exists_congr fun rest => ?_
  rw [after?_beq_eq_some_iff]
  refine and_congr_right fun split => ?_
  rw [split, List.take_left, eq_comm]

/-- Behind a text that is spelled out, what is kept is that of the pattern which follows. -/
theorem kept?_spelled_andThen {same : Char → Char → Bool} {letters : List Char} :
    kept? (andThen (spelled same letters) second) text =
      (after? same letters text).bind (kept? second) := by
  have hsilent : ∀ fit ∈ fits (spelled same letters) text, fit.kept = none := by
    intro fit hfit
    rw [fits_spelled, Option.mem_toList] at hfit
    obtain ⟨rest, -, rfl⟩ := Option.map_eq_some_iff.1 hfit
    rfl
  rw [kept?_andThen hsilent, fits_spelled]
  cases after? same letters text with
  | none => rfl
  | some rest => exact List.findSome?_singleton

/-- Behind one character of a class, what is kept is that of the pattern which follows. -/
theorem kept?_one_andThen_cons {c : Char} : kept? (andThen (one accepts) second) (c :: text) =
    if accepts c then kept? second text else none := by
  have hsilent : ∀ fit ∈ fits (one accepts) (c :: text), fit.kept = none := by
    intro fit hfit
    obtain ⟨_, _, -, -, rfl⟩ := mem_fits_one_iff.1 hfit
    rfl
  rw [kept?_andThen hsilent, fits]
  split
  · exact List.findSome?_singleton
  · rfl

/-- Of all stretches, the longest first, the longest one is taken if none of them leads on in the middle. -/
theorem findSome?_stretches {α : Type} {onward : List Char → Option α}
    (stops : ∀ c rest, accepts c → onward (c :: rest) = none) (text : List Char) :
    (((stretches accepts text).reverse ++ [([], text)]).findSome? fun cut : Cut => onward cut.2) =
      onward (text.dropWhile accepts) := by
  induction text with
  | nil => exact List.findSome?_singleton
  | cons c text ih =>
    rw [stretches]
    by_cases hc : accepts c
    · have hlonger : (((stretches accepts text).map fun cut : Cut => (c :: cut.1, cut.2)).reverse ++
            [([c], text)]) = ((stretches accepts text).reverse ++ [([], text)]).map
              fun cut : Cut => (c :: cut.1, cut.2) := by
        rw [List.map_append, List.map_reverse]
        rfl
      rw [if_pos hc, List.reverse_cons, hlonger, List.findSome?_append, List.findSome?_map,
        List.findSome?_singleton, stops c text hc, Option.or_none, List.dropWhile_cons_of_pos hc, ← ih]
      rfl
    · rw [if_neg hc, List.dropWhile_cons_of_neg hc]
      exact List.findSome?_singleton

/-- A greedy repetition takes its longest stretch if what comes next cannot begin inside of it. -/
theorem kept?_greedy_andThen (stops : ∀ c rest, accepts c → kept? second (c :: rest) = none) :
    kept? (andThen (greedy accepts) second) text = kept? second (text.dropWhile accepts) := by
  have hsilent : ∀ fit ∈ fits (greedy accepts) text, fit.kept = none := by
    intro fit hfit
    obtain ⟨split, -, rfl⟩ := List.mem_map.1 hfit
    rfl
  rw [kept?_andThen hsilent, fits, List.findSome?_map, ← findSome?_stretches stops text]
  rfl

/-- A reluctant repetition that is kept stops as soon as what comes next fits. -/
theorem kept?_reluctant_andThen (silent : ∀ text, ∀ fit ∈ fits second text, fit.kept = none) :
    kept? (andThen (keep (reluctant accepts)) second) text =
      ((stretches accepts text).find? fun cut : Cut => (fits second cut.2).head?.isSome).map
        fun cut : Cut => some cut.1 := by
  have hkept : ∀ cut : Cut,
      ((fits second cut.2).map (Fit.andThen ⟨cut.1, some cut.1, cut.2⟩)).head?.map Fit.kept =
        if (fits second cut.2).head?.isSome then some (some cut.1) else none := by
    intro cut
    cases hfits : fits second cut.2 with
    | nil => rfl
    | cons fit others =>
      have hsilent : fit.kept = none := silent cut.2 fit (hfits ▸ List.mem_cons_self)
      simp [Fit.andThen, hsilent]
  rw [kept?, fits, fits, fits, List.head?_flatMap, List.map_findSome?, List.map_map, List.findSome?_map]
  induction stretches accepts text with
  | nil => rfl
  | cons cut others ih =>
    rw [List.findSome?_cons, ih, List.find?_cons]
    simp only [Function.comp, hkept]
    cases (fits second cut.2).head?.isSome <;> rfl

/-- The first stretch behind which something can go on. -/
theorem find?_stretches_eq_some (onward : List Char → Bool) {front rest : List Char}
    (split : text = front ++ rest) (visible : front ≠ []) (hall : ∀ c ∈ front, accepts c)
    (goesOn : onward rest) (shortest : ∀ other behind, text = other ++ behind → other ≠ [] →
      other.length < front.length → onward behind = false) :
    ((stretches accepts text).find? fun cut : Cut => onward cut.2) = some (front, rest) := by
  induction text generalizing front with
  | nil => exact absurd (List.append_eq_nil_iff.1 split.symm).1 visible
  | cons c text ih =>
    cases front with
    | nil => exact absurd rfl visible
    | cons d front =>
      obtain ⟨rfl, htext⟩ := List.cons.inj split
      rw [List.append_eq] at htext
      have hfind : ((stretches accepts (c :: text)).find? fun cut : Cut => onward cut.2) =
          if onward text then some ([c], text)
          else ((stretches accepts text).find? fun cut : Cut => onward cut.2).map
            fun cut : Cut => (c :: cut.1, cut.2) := by
        rw [stretches, if_pos (hall c List.mem_cons_self), List.find?_cons, List.find?_map]
        cases onward text <;> rfl
      rw [hfind]
      by_cases one : front = []
      · have hrest : text = rest := by rw [htext, one, List.nil_append]
        rw [hrest, if_pos goesOn, one]
      · have hpos : 0 < front.length := List.length_pos_of_ne_nil one
        have hlater : onward text = false :=
          shortest [c] text rfl (List.cons_ne_nil c []) (by simpa using hpos)
        have hbehind : ((stretches accepts text).find? fun cut : Cut => onward cut.2) =
            some (front, rest) := by
          refine ih htext one (fun e he => hall e (List.mem_cons_of_mem c he)) ?_
          intro other behind hsplit _ hlt
          refine shortest (c :: other) behind (congrArg (c :: ·) hsplit) (List.cons_ne_nil c other) ?_
          exact Nat.succ_lt_succ hlt
        rw [hlater, hbehind]
        rfl

/-- What a search keeps is what is kept at the leftmost place with a fit. -/
theorem map_kept_search? (pattern : Pattern) (c : Char) (text : List Char) :
    (search? pattern (c :: text)).map Fit.kept =
      (kept? pattern (c :: text)).or ((search? pattern text).map Fit.kept) := by
  rw [search?, Option.orElse_eq_orElse, Option.orElse_eq_or, Option.map_or, kept?]

end Kept

end Pattern

end CodeCensus.Text

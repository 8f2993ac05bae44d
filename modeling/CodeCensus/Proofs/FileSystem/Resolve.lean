import CodeCensus.FileSystem.Resolve
import CodeCensus.Proofs.FileSystem.Tree

/-!
# Keeping the last link of a path

Whether a link at the end of a path is followed makes a difference for paths that end in a link only.
So where a path leads when its last link is followed, it leads as well when the link is kept, or else it
leads to a link then (`resolve_keep`).
-/

namespace CodeCensus.FileSystem

namespace Tree

/-- A place below another one is found from there. -/
theorem at?_concat {tree inside : Tree} {entry : Entry} {place : List FileName} {name : FileName}
    (directory : tree.at? place = some (.directory inside)) (found : inside.find? name = some entry) :
    tree.at? (place ++ [name]) = some entry := by
  rw [at?_append, directory, Option.bind_some, at?_directory, at?_eq_bind, found]
  rfl

end Tree

/-- What is found by following the last link is found without following it, unless a link is found
then. -/
theorem walk_keep {root : Tree} {links : Nat} {here target : Place} {segments : List FileName}
    (followed : walk root .follow links here segments = .ok target) :
    walk root .keep links here segments = .ok target ∨
      ∃ place link, walk root .keep links here segments = .ok place ∧
        root.at? place = some (.link link) := by
  -- The two walks take the same steps up to the last segment, so the induction is on the one that follows.
  induction links, here, segments using walk.induct root .follow with
  | case1 links here =>
    rw [walk] at followed ⊢
    exact .inl followed
  | case2 links here segment rest inside directory same ih =>
    rw [walk] at followed ⊢
    simp only [directory, if_pos same] at followed ⊢
    exact ih followed
  | case3 links here rest inside directory other ih =>
    rw [walk] at followed ⊢
    simp only [directory, if_neg other, if_true] at followed ⊢
    exact ih followed
  | case4 links here segment rest inside directory other up long =>
    rw [walk] at followed
    simp only [directory, if_neg other, if_neg up, if_pos long] at followed
    cases followed
  | case5 links here segment rest inside directory other up short link found last =>
    cases last.2
  | case6 here segment rest inside directory other up short link found more =>
    rw [walk] at followed
    simp only [directory, if_neg other, if_neg up, if_neg short, found, if_neg more] at followed
    cases followed
  | case7 here segment rest inside directory other up short link found more links ih =>
    rw [walk] at followed ⊢
    simp only [directory, if_neg other, if_neg up, if_neg short, found, if_neg more] at followed ⊢
    by_cases last : rest = []
    · -- Here the link is kept.
      rw [if_pos ⟨last, trivial⟩]
      exact .inr ⟨_, link, rfl, Tree.at?_concat directory found⟩
    · rw [if_neg fun both => last both.1]
      exact ih followed
  | case8 links here segment rest inside directory other up short entry notLink found ih =>
    rw [walk] at followed ⊢
    simp only [directory, if_neg other, if_neg up, if_neg short, found] at followed ⊢
    exact ih followed
  | case9 links here segment rest inside directory other up short found last =>
    cases last.2
  | case10 links here segment rest inside directory other up short found more =>
    rw [walk] at followed
    simp only [directory, if_neg other, if_neg up, if_neg short, found, if_neg more] at followed
    cases followed
  | case11 links here segment rest noDirectory =>
    rw [walk] at followed
    split at followed
    · next inside directory => exact absurd directory (noDirectory inside)
    · cases followed

/-- A path that leads to a place leads there with its last link kept too, or else it leads to a link. -/
theorem resolve_keep {root : Tree} {working target : Place} {path : Path}
    (followed : resolve root working .follow path = .ok target) :
    resolve root working .keep path = .ok target ∨
      ∃ place link, resolve root working .keep path = .ok place ∧
        root.at? place = some (.link link) := by
  unfold resolve at followed ⊢
  by_cases empty : path.bytes = []
  · rw [if_pos empty] at followed
    cases followed
  rw [if_neg empty] at followed ⊢
  by_cases zero : path.bytes.contains 0
  · rw [if_pos zero] at followed
    cases followed
  rw [if_neg zero] at followed ⊢
  by_cases long : maxPath ≤ path.bytes.length
  · rw [if_pos long] at followed
    cases followed
  rw [if_neg long] at followed ⊢
  exact walk_keep followed

end CodeCensus.FileSystem

import Mathlib.Data.List.Basic
import Mathlib.Data.List.DropRight

/-!
# Path names

What a path name resolves to, symbolic links aside: a directory is the list of
the names that lead to it from the root. A path is walked piece by piece between
its slashes; an empty piece and `.` stay, `..` goes up, any other name goes down.
-/

namespace Posix

abbrev Name := List Char

/-- The names from the root to a directory. -/
abbrev Dir := List Name

/-- The pieces between slashes. -/
def pieces : List Char → List Name
  | [] => [[]]
  | c :: cs =>
    if c = '/' then [] :: pieces cs
    else match pieces cs with
      | [] => [[c]]
      | p :: ps => (c :: p) :: ps

def enter (dir : Dir) (piece : Name) : Dir :=
  if piece = [] ∨ piece = ['.'] then dir
  else if piece = ['.', '.'] then dir.dropLast
  else dir ++ [piece]

def walk (dir : Dir) (path : List Char) : Dir := (pieces path).foldl enter dir

/-- From a working directory; an absolute path ignores it. -/
def resolve (cwd : Dir) (path : List Char) : Dir :=
  walk (if path.head? = some '/' then [] else cwd) path

variable {dir cwd : Dir} {p q : List Char}

theorem pieces_slash (p : List Char) : pieces ('/' :: p) = [] :: pieces p := rfl

theorem pieces_cons {c : Char} (hc : c ≠ '/') (p : List Char) :
    ∃ n ns, pieces p = n :: ns ∧ pieces (c :: p) = (c :: n) :: ns := by
  induction p generalizing c with
  | nil => exact ⟨[], [], rfl, if_neg hc⟩
  | cons d cs ih =>
    by_cases hd : d = '/'
    · subst hd
      exact ⟨[], pieces cs, rfl, if_neg hc⟩
    · obtain ⟨n, ns, -, hcons⟩ := ih hd
      refine ⟨d :: n, ns, hcons, ?_⟩
      rw [pieces, if_neg hc, hcons]

theorem pieces_append_slash (p q : List Char) :
    pieces (p ++ '/' :: q) = pieces p ++ pieces q := by
  induction p with
  | nil => rfl
  | cons c cs ih =>
    rw [List.cons_append]
    by_cases hc : c = '/'
    · rw [hc, pieces_slash, pieces_slash, ih]
      rfl
    · obtain ⟨n, ns, hcs, hcons⟩ := pieces_cons hc cs
      obtain ⟨m, ms, hrest, hcons'⟩ := pieces_cons hc (cs ++ '/' :: q)
      rw [ih, hcs] at hrest
      cases hrest
      rw [hcons, hcons']
      rfl

theorem pieces_of_not_mem (h : '/' ∉ p) : pieces p = [p] := by
  induction p with
  | nil => rfl
  | cons c cs ih =>
    rw [List.mem_cons, not_or] at h
    obtain ⟨n, ns, hcs, hcons⟩ := pieces_cons (Ne.symm h.1) cs
    rw [ih h.2] at hcs
    cases hcs
    exact hcons

/-! ## Walking -/

theorem walk_append_slash : walk dir (p ++ '/' :: q) = walk (walk dir p) q := by
  unfold walk
  rw [pieces_append_slash, List.foldl_append]

theorem walk_nil : walk dir [] = dir := rfl

theorem walk_slash_cons : walk dir ('/' :: p) = walk dir p :=
  walk_append_slash (p := []) |>.trans rfl

theorem walk_concat_slash : walk dir (p ++ ['/']) = walk dir p := walk_append_slash

/-- Leading slashes make no difference to a walk. -/
theorem walk_dropWhile : walk dir (p.dropWhile (· == '/')) = walk dir p := by
  induction p with
  | nil => rfl
  | cons c cs ih =>
    by_cases hc : c = '/'
    · rw [hc, walk_slash_cons, ← ih]
      rfl
    · rw [List.dropWhile_cons_of_neg (by simpa using hc)]

/-- Nor do trailing ones. -/
theorem walk_rdropWhile : walk dir (p.rdropWhile (· == '/')) = walk dir p := by
  induction p using List.reverseRecOn with
  | nil => rfl
  | append_singleton cs c ih =>
    by_cases hc : c = '/'
    · rw [hc, List.rdropWhile_concat_pos _ _ _ rfl, ih, walk_concat_slash]
    · rw [List.rdropWhile_concat_neg _ _ _ (by simpa using hc)]

/-- A name that is no special one. -/
structure Plain (name : Name) : Prop where
  ne_nil : name ≠ []
  ne_dot : name ≠ ['.']
  ne_dots : name ≠ ['.', '.']
  no_slash : '/' ∉ name

theorem walk_plain (h : Plain p) : walk dir p = dir ++ [p] := by
  unfold walk
  rw [pieces_of_not_mem h.no_slash, List.foldl_cons, List.foldl_nil]
  unfold enter
  rw [if_neg (by simp [h.ne_nil, h.ne_dot]), if_neg h.ne_dots]

/-- A walk that never goes up ends in the directory where it starts, or below. -/
theorem prefix_walk (h : ['.', '.'] ∉ pieces p) : dir <+: walk dir p := by
  unfold walk
  generalize pieces p = ns at h ⊢
  induction ns generalizing dir with
  | nil => exact List.prefix_rfl
  | cons n ns ih =>
    rw [List.mem_cons, not_or] at h
    have hstep : dir <+: enter dir n := by
      unfold enter
      rw [if_neg (Ne.symm h.1)]
      split
      · exact List.prefix_rfl
      · exact List.prefix_append _ _
    exact hstep.trans (ih h.2)

/-- Two directories with different names in one directory have nothing in common. -/
theorem not_prefix_of_siblings {a b : Name} {d e : Dir} (hab : a ≠ b) (ha : dir ++ [a] <+: d)
    (hb : dir ++ [b] <+: e) : ¬ d <+: e := by
  intro hde
  obtain ⟨r, rfl⟩ := ha.trans hde
  obtain ⟨r', hr'⟩ := hb
  rw [List.append_assoc, List.append_assoc] at hr'
  exact hab (List.cons.inj (List.append_cancel_left hr')).1.symm

/-! ## Resolving -/

theorem resolve_append_slash (hp : p ≠ []) :
    resolve cwd (p ++ '/' :: q) = walk (resolve cwd p) q := by
  obtain ⟨c, cs, rfl⟩ := List.exists_cons_of_ne_nil hp
  exact walk_append_slash

theorem resolve_slash_cons : resolve cwd ('/' :: p) = walk [] p := walk_slash_cons

theorem resolve_rdropWhile (hp : p.rdropWhile (· == '/') ≠ []) :
    resolve cwd (p.rdropWhile (· == '/')) = resolve cwd p := by
  unfold resolve
  rw [walk_rdropWhile]
  obtain ⟨more, hmore⟩ := List.rdropWhile_prefix (· == '/') p
  have hhead : (p.rdropWhile (· == '/')).head? = p.head? := by
    obtain ⟨c, cs, hc⟩ := List.exists_cons_of_ne_nil hp
    rw [hc] at hmore ⊢
    rw [← hmore]
    rfl
  rw [hhead]

/-- Only slashes: the root. -/
theorem resolve_slashes (hp : p ≠ []) (hall : p.rdropWhile (· == '/') = []) :
    resolve cwd p = [] := by
  obtain ⟨c, cs, rfl⟩ := List.exists_cons_of_ne_nil hp
  have hc : c = '/' := by
    have := List.rdropWhile_eq_nil_iff.mp hall c List.mem_cons_self
    exact eq_of_beq this
  rw [hc, resolve_slash_cons, ← walk_slash_cons, ← hc, ← walk_rdropWhile, hall]
  rfl

end Posix

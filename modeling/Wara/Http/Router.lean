import Mathlib.Data.List.Basic
import Mathlib.Data.List.Pairwise

/-!
# Routers

A router is a table of path templates, each with handlers for some methods. A
request goes to the handler that its method has under a template that takes its
path. When no two templates take one path, that template is the only one: the
order of the table does not matter, nor which of several a router prefers.
-/

namespace Http

inductive Method where
  | get
  | head
  | post
  | put
  | patch
  | delete
  | other (name : String)
  deriving DecidableEq, Repr

inductive Segment where
  | literal (text : String)
  | capture (name : String)
  deriving DecidableEq, Repr

abbrev Template := List Segment

/-- The captured segments of a path, under their names. -/
abbrev Params := List (String × String)

/-- A capture takes any segment, but not an empty one at the end of the path. -/
def take : Template → List String → Option Params
  | [], [] => some []
  | .literal text :: t, s :: path => if s = text then take t path else none
  | .capture name :: t, s :: path =>
    if s = "" ∧ path = [] then none else (take t path).map ((name, s) :: ·)
  | _, _ => none

/-- The path of a template with its captures filled in. -/
def fill : Template → Params → List String
  | .literal text :: t, ps => text :: fill t ps
  | .capture _ :: t, p :: ps => p.2 :: fill t ps
  | _, _ => []

/-- What can be filled in: a segment for each capture, not an empty one at the end. -/
def Fits : Template → Params → Prop
  | [], ps => ps = []
  | .literal _ :: t, ps => Fits t ps
  | .capture name :: t, p :: ps => p.1 = name ∧ (t = [] → p.2 ≠ "") ∧ Fits t ps
  | .capture _ :: _, [] => False

/-- No path is taken by both: they differ in length, or somewhere in their text. -/
def apart : Template → Template → Bool
  | [], [] => false
  | .literal a :: t, .literal b :: u => a ≠ b || apart t u
  | _ :: t, _ :: u => apart t u
  | _, _ => true

abbrev MethodRouter (H : Type) := List (Method × H)

abbrev Router (H : Type) := List (Template × MethodRouter H)

inductive Outcome (H : Type) where
  | handler (h : H) (params : Params)
  | methodNotAllowed
  | notFound
  deriving DecidableEq, Repr

section router

variable {H : Type}

/-- A handler for `GET` also answers `HEAD`. -/
def MethodRouter.handler (ms : MethodRouter H) (m : Method) : Option H :=
  match ms.lookup m with
  | some h => some h
  | none => if m = .head then ms.lookup .get else none

/-- What the methods under a template that took the path have for a method. -/
def MethodRouter.outcome (ms : MethodRouter H) (m : Method) (params : Params) : Outcome H :=
  match ms.handler m with
  | some h => .handler h params
  | none => .methodNotAllowed

namespace Router

def route (r : Router H) (t : Template) (ms : MethodRouter H) : Router H := r ++ [(t, ms)]

def merge (r r' : Router H) : Router H := r ++ r'

def nest (r : Router H) (path : List String) (r' : Router H) : Router H :=
  r ++ r'.map fun entry => (path.map .literal ++ entry.1, entry.2)

/-- The first entry that takes the path. -/
def find (r : Router H) (path : List String) : Option (MethodRouter H × Params) :=
  r.findSome? fun entry => (take entry.1 path).map (entry.2, ·)

def dispatch (r : Router H) (m : Method) (path : List String) : Outcome H :=
  match r.find path with
  | some (ms, params) => ms.outcome m params
  | none => .notFound

/-- No path is taken by two entries. -/
def Unambiguous (r : Router H) : Prop := r.Pairwise fun e e' => apart e.1 e'.1 = true

instance (r : Router H) : Decidable r.Unambiguous := inferInstanceAs (Decidable (List.Pairwise _ _))

end Router

end router

/-! ## Templates -/

section templates

variable {t u : Template} {path : List String} {ps : Params}

theorem fill_eq_nil (h : Fits t ps) : fill t ps = [] ↔ t = [] := by
  cases t with
  | nil => exact iff_of_true (by cases ps <;> rfl) rfl
  | cons s t =>
    refine iff_of_false ?_ (List.cons_ne_nil s t)
    cases s with
    | literal text => exact List.cons_ne_nil _ _
    | capture name =>
      cases ps with
      | nil => exact h.elim
      | cons p ps => exact List.cons_ne_nil _ _

/-- **Reading a path back.** The captures are what was filled in. -/
theorem take_fill (h : Fits t ps) : take t (fill t ps) = some ps := by
  induction t generalizing ps with
  | nil => rw [show ps = [] from h]; rfl
  | cons s t ih =>
    cases s with
    | literal text => simp only [fill, take, if_pos, ih h]
    | capture name =>
      cases ps with
      | nil => exact h.elim
      | cons p ps =>
        obtain ⟨rfl, hp, hps⟩ := h
        have hlast : ¬ (p.2 = "" ∧ fill t ps = []) :=
          fun hempty => hp ((fill_eq_nil hps).mp hempty.2) hempty.1
        simp only [fill, take, if_neg hlast, ih hps, Option.map_some]

/-- A path that is taken is the template with its captures filled in. -/
theorem fill_of_take (h : take t path = some ps) : Fits t ps ∧ fill t ps = path := by
  induction t generalizing path ps with
  | nil =>
    cases path with
    | nil => cases h; exact ⟨rfl, rfl⟩
    | cons => cases h
  | cons s t ih =>
    cases path with
    | nil => cases s <;> cases h
    | cons w path =>
      cases s with
      | literal text =>
        simp only [take] at h
        split at h
        · next hw =>
          obtain ⟨hfits, hfill⟩ := ih h
          exact ⟨hfits, by rw [fill, hfill, hw]⟩
        · cases h
      | capture name =>
        simp only [take] at h
        split at h
        · cases h
        · next hw =>
          obtain ⟨ps', hps', rfl⟩ := Option.map_eq_some_iff.mp h
          obtain ⟨hfits, hfill⟩ := ih hps'
          refine ⟨⟨rfl, fun ht hempty => hw ⟨hempty, ?_⟩, hfits⟩, by rw [fill, hfill]⟩
          rw [← hfill, fill_eq_nil hfits]
          exact ht

theorem apart_comm (t u : Template) : apart t u = apart u t := by
  induction t generalizing u with
  | nil =>
    cases u with
    | nil => rfl
    | cons s u => cases s <;> rfl
  | cons s t ih =>
    cases u with
    | nil => cases s <;> rfl
    | cons s' u =>
      cases s with
      | literal a =>
        cases s' with
        | literal b => simp only [apart, ih u, ne_comm (a := a)]
        | capture => exact ih u
      | capture => cases s' <;> exact ih u

/-- Of two templates that are apart, one does not take the path. -/
theorem take_apart (h : apart t u = true) (ht : take t path = some ps) : take u path = none := by
  induction t generalizing u path ps with
  | nil =>
    cases u with
    | nil => cases h
    | cons s u =>
      cases path with
      | nil => cases s <;> rfl
      | cons => cases ht
  | cons s t ih =>
    cases path with
    | nil => cases s <;> cases ht
    | cons w path =>
      have hrest : ∃ ps', take t path = some ps' := by
        cases s with
        | literal => simp only [take] at ht; split at ht; exacts [⟨_, ht⟩, nomatch ht]
        | capture =>
          simp only [take] at ht
          split at ht
          · cases ht
          · obtain ⟨ps', hps', -⟩ := Option.map_eq_some_iff.mp ht
            exact ⟨ps', hps'⟩
      obtain ⟨ps', hps'⟩ := hrest
      cases u with
      | nil => rfl
      | cons s' u =>
        -- a literal that is not the same text, or a difference further on
        have hdiffers : (∃ a b, s = .literal a ∧ s' = .literal b ∧ a ≠ b) ∨ apart t u = true := by
          cases s <;> cases s' <;> simp_all [apart]
        rcases hdiffers with ⟨a, b, rfl, rfl, hab⟩ | hu
        · simp only [take] at ht ⊢
          split at ht
          · next hw => rw [if_neg (hw ▸ hab)]
          · cases ht
        · have hnone := ih hu hps'
          cases s' with
          | literal => simp only [take, hnone, ite_self]
          | capture => simp only [take, hnone, Option.map_none, ite_self]

end templates

/-! ## Routers -/

theorem MethodRouter.mem_of_handler {H : Type} {ms : MethodRouter H} {m : Method} {h : H}
    (hm : ms.handler m = some h) : (m, h) ∈ ms ∨ m = .head ∧ (.get, h) ∈ ms := by
  have hmem : ∀ m', ms.lookup m' = some h → (m', h) ∈ ms := by
    intro m' hm'
    obtain ⟨before, after, rfl, -⟩ := List.lookup_eq_some_iff.mp hm'
    exact List.mem_append_right _ List.mem_cons_self
  unfold MethodRouter.handler at hm
  split at hm
  · next h' hh' =>
    cases hm
    exact .inl (hmem _ hh')
  · split at hm
    · next hhead => exact .inr ⟨hhead, hmem _ hm⟩
    · cases hm

namespace Router

variable {H : Type} {r r' : Router H} {m : Method} {path : List String} {ps : Params}

theorem find_some {ms : MethodRouter H} (h : r.find path = some (ms, ps)) :
    ∃ t, (t, ms) ∈ r ∧ take t path = some ps := by
  obtain ⟨⟨t, ms'⟩, hmem, he⟩ := List.exists_of_findSome?_eq_some h
  obtain ⟨ps', hps', heq⟩ := Option.map_eq_some_iff.mp he
  cases heq
  exact ⟨t, hmem, hps'⟩

/-- **The only template.** An entry that takes the path is the one that is found. -/
theorem find_of_mem (hr : r.Unambiguous) {entry : Template × MethodRouter H} (hmem : entry ∈ r)
    (h : take entry.1 path = some ps) : r.find path = some (entry.2, ps) := by
  induction r with
  | nil => cases hmem
  | cons e r ih =>
    obtain ⟨hhead, hr⟩ := List.pairwise_cons.mp hr
    rcases List.mem_cons.mp hmem with rfl | hmem
    · simp only [find, List.findSome?_cons, h, Option.map_some]
    · have hnone : take e.1 path = none := by
        refine take_apart ?_ h
        rw [apart_comm]
        exact hhead _ hmem
      simp only [find, List.findSome?_cons, hnone, Option.map_none]
      exact ih hr hmem

theorem dispatch_of_mem (hr : r.Unambiguous) {entry : Template × MethodRouter H}
    (hmem : entry ∈ r) (h : take entry.1 path = some ps) :
    r.dispatch m path = entry.2.outcome m ps := by
  simp only [dispatch, find_of_mem hr hmem h]

/-- A handler that a request reaches stands in the table, under a template that took its path. -/
theorem entry_of_dispatch {h : H} (hd : r.dispatch m path = .handler h ps) :
    ∃ t ms, (t, ms) ∈ r ∧ take t path = some ps ∧ ms.handler m = some h := by
  unfold dispatch at hd
  split at hd
  · next ms params hfind =>
    obtain ⟨t, hmem, htake⟩ := find_some hfind
    unfold MethodRouter.outcome at hd
    split at hd
    · next h' hh =>
      cases hd
      exact ⟨t, ms, hmem, htake, hh⟩
    · cases hd
  · cases hd

theorem find_eq_none : r.find path = none ↔ ∀ entry ∈ r, take entry.1 path = none := by
  simp only [find, List.findSome?_eq_none_iff, Option.map_eq_none_iff]

/-- **The order does not matter.** -/
theorem dispatch_perm (hr : r.Unambiguous) (hperm : r.Perm r') :
    r'.dispatch m path = r.dispatch m path := by
  have hr' : r'.Unambiguous :=
    (hperm.pairwise_iff fun h => (apart_comm _ _).trans h).mp hr
  cases hfind : r.find path with
  | none =>
    have hnone : r'.find path = none :=
      find_eq_none.mpr fun entry hmem => find_eq_none.mp hfind entry (hperm.mem_iff.mpr hmem)
    simp only [dispatch, hfind, hnone]
  | some found =>
    obtain ⟨t, hmem, htake⟩ := find_some hfind
    rw [dispatch_of_mem hr hmem htake, dispatch_of_mem hr' (hperm.mem_iff.mp hmem) htake]

end Router

end Http

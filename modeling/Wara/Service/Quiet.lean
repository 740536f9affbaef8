import Wara.Service.Rules

/-!
# Calls that run alone on a database that answers

`quiet y s` is how the call `y` ends when nobody else runs and no statement
fails, with one equation for each idiom followed by the rest of the call.
-/

namespace Wara

open Interleave Store

namespace Service

variable {α β : Type} {s : World} {t : Table}

def quiet (y : Service α) (s : World) : Option (Except Abort α × World) :=
  Prog.runAll exec 0 .done y s

theorem run_of_quiet {y : Service α} {s s' : World} {r : Except Abort α}
    (h : quiet y s = some (r, s')) : ∃ n, Prog.run exec 0 y (List.replicate n .done) s = some (r, s') :=
  Prog.run_of_runAll h

theorem quiet_bind {y : Service α} {f : α → Service β} {a : α} {s' : World}
    (h : quiet y s = some (.ok a, s')) : quiet (y >>= f) s = quiet (f a) s' := by
  unfold quiet at h ⊢
  rw [Flow.bind_eq, Prog.runAll_bind, h]
  rfl

theorem quiet_bind_error {y : Service α} {f : α → Service β} {e : Abort} {s' : World}
    (h : quiet y s = some (.error e, s')) : quiet (y >>= f) s = some (.error e, s') := by
  unfold quiet at h ⊢
  rw [Flow.bind_eq, Prog.runAll_bind, h]
  rfl

theorem quiet_map {y : Service α} {f : α → β} {a : α} {s' : World}
    (h : quiet y s = some (.ok a, s')) : quiet (f <$> y) s = some (.ok (f a), s') := by
  rw [← bind_pure_comp, quiet_bind h]
  rfl

theorem quiet_throwIf {b : Prop} [Decidable b] {e : ApiError} {f : Unit → Service β} :
    quiet (throwIf b e >>= f) s = if b then some (.error (.api e), s) else quiet (f ()) s := by
  unfold throwIf
  split
  · exact quiet_bind_error rfl
  · exact quiet_bind rfl

theorem quiet_query {flt : Filter} : quiet (query t flt) s = some (.ok (layout.select s.db t flt), s) :=
  rfl

theorem quiet_first {flt : Filter} :
    quiet (first t flt) s = some (.ok (layout.select s.db t flt).head?, s) := by
  unfold first
  rw [quiet_bind quiet_query]
  rfl

theorem quiet_update {flt : Filter} {sets : List (Nat × Value)} {db : Db}
    (h : layout.apply (.update t flt sets) s.db = some db) :
    quiet (update t flt sets) s = some (.ok (), { s with db := db }) := by
  have hcommit : s.commit [.update t flt sets] = (.ok (), { s with db := db }) := by
    have hall : layout.applyAll [.update t flt sets] s.db = some db :=
      Layout.applyAll_cons.mpr ⟨db, h, Layout.applyAll_nil.mpr rfl⟩
    unfold World.commit
    rw [hall]
  unfold quiet update
  rw [Flow.bind_eq, Prog.runAll_bind, Flow.call_eq]
  simp only [Prog.runAll, exec, hcommit, Option.bind_some, Flow.next_ok]
  rfl

end Service

end Wara

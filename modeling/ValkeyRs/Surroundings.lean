/-
Whatever the surroundings answer.

The world of a command has streams of answers in it: the readings of the clocks, the random numbers
and the traversal orders. A property of every run from a store, whatever the streams hold, is the
same as a weakest precondition in which each call is answered anew (`wp_sees_iff`). For the other
half the streams are put together from the answers one wants: no call sees more than the head of a
stream, and what is behind it is still free (`step_refill`, `run_refill`).
-/
import ValkeyRs.StoreRules
import ValkeyRs.Wp

set_option autoImplicit false

open ValkeyRs.Text

namespace ValkeyRs.Storage

variable {F : Type} [LinearOrder F] {α : Type}

/-! ## Streams -/

def World.under (w : World F) (env : Env) : World F := { w with env := env }

def push {β : Type} (head : β) (stream : ℕ → β) : ℕ → β
  | 0 => head
  | n + 1 => stream n

theorem step_refill (o : StoreOp F) (w : World F) (env : Env) :
    ∃ env', World.step o (w.under env') =
      ((World.step o w).1, (World.step o w).2.under env) := by
  cases o with
  | iter => exact ⟨{ env with arrange := push (w.env.arrange 0) env.arrange }, rfl⟩
  | now => exact ⟨{ env with clock := push (w.env.clock 0) env.clock }, rfl⟩
  | unix_time => exact ⟨{ env with wall := push (w.env.wall 0) env.wall }, rfl⟩
  | random => exact ⟨{ env with random := push (w.env.random 0) env.random }, rfl⟩
  | access | clear | clear_watchers | notify | watch | config | set_config | count_dirty
  | count_evicted => exact ⟨env, rfl⟩

theorem run_refill (p : StoreM F α) (w : World F) (env : Env) :
    ∃ env', p.run World.step (w.under env') =
      ((p.run World.step w).1, (p.run World.step w).2.under env) := by
  induction p generalizing w with
  | pure a => exact ⟨env, rfl⟩
  | fail e => exact ⟨env, rfl⟩
  | op o next ih =>
    obtain ⟨rest, hrest⟩ := ih (World.step o w).1 (World.step o w).2
    obtain ⟨env', hstep⟩ := step_refill o w rest
    refine ⟨env', ?_⟩
    rw [Prog.run, hstep]
    exact hrest

/-! ## Weakest preconditions -/

/-- What is left of a world without its streams, and without what no call reads. -/
structure View (F : Type) [LinearOrder F] where
  keyspace : HashMap Bytes (Entry F)
  config : EvictionConfig
  channels : ℕ

def World.view (w : World F) : View F := ⟨w.store.keyspace, w.store.evict_config, w.channels⟩

/-- What a call can answer in some surroundings, and what it leaves. -/
def sees : (o : StoreOp F) → View F → StoreOp.Res o → View F → Prop
  | .access key f, v, r, v' =>
    r = v.keyspace[key]? ∧ v' = { v with keyspace := v.keyspace.alter key f }
  | .iter, v, r, v' => (∃ a, r = arranged a v.keyspace) ∧ v' = v
  | .clear, v, _, v' => v' = { v with keyspace := ∅ }
  | .watch _, v, r, v' => r = v.channels ∧ v' = { v with channels := v.channels + 1 }
  | .config, v, r, v' => r = v.config ∧ v' = v
  | .set_config config, v, _, v' => v' = { v with config := config }
  | .now, v, _, v' | .unix_time, v, _, v' | .random, v, _, v' | .clear_watchers, v, _, v'
  | .notify _, v, _, v' | .count_dirty, v, _, v' | .count_evicted, v, _, v' => v' = v

theorem sees_step (o : StoreOp F) (w : World F) :
    sees o w.view (World.step o w).1 (World.step o w).2.view := by
  cases o with
  | access key f => exact ⟨rfl, rfl⟩
  | iter => exact ⟨⟨_, rfl⟩, rfl⟩
  | watch key => exact ⟨rfl, rfl⟩
  | config => exact ⟨rfl, rfl⟩
  | clear | clear_watchers | notify | now | unix_time | random | set_config | count_dirty
  | count_evicted => rfl

theorem exists_step_of_sees {o : StoreOp F} {w : World F} {r : StoreOp.Res o} {v : View F}
    (h : sees o w.view r v) :
    ∃ env, (World.step o (w.under env)).1 = r ∧ (World.step o (w.under env)).2.view = v := by
  cases o with
  | access key f => exact ⟨w.env, h.1.symm, h.2.symm⟩
  | watch key => exact ⟨w.env, h.1.symm, h.2.symm⟩
  | config => exact ⟨w.env, h.1.symm, h.2.symm⟩
  | iter =>
    obtain ⟨⟨a, ha⟩, hv⟩ := h
    exact ⟨{ w.env with arrange := fun _ => a }, ha.symm, hv.symm⟩
  | now => exact ⟨{ w.env with clock := fun _ => r }, rfl, Eq.symm h⟩
  | unix_time => exact ⟨{ w.env with wall := fun _ => r }, rfl, Eq.symm h⟩
  | random => exact ⟨{ w.env with random := fun _ => r }, rfl, Eq.symm h⟩
  | clear | clear_watchers | notify | set_config | count_dirty | count_evicted =>
    exact ⟨w.env, rfl, Eq.symm h⟩

/-- **All surroundings.** What is true at the end of every run is what every way of answering leads
to. -/
theorem wp_sees_iff {p : StoreM F α} {Q : Except Halt α → View F → Prop} {w : World F} :
    p.Wp sees Q w.view ↔
      ∀ env, Q (p.run World.step (w.under env)).1 (p.run World.step (w.under env)).2.view := by
  constructor
  · intro h env
    exact Prog.Wp.run (g := World.view) (I := fun _ => True) (c := w.under env)
      (fun o c _ => ⟨sees_step o c, trivial⟩) h trivial
  · intro h
    induction p generalizing w with
    | pure a => exact h w.env
    | fail e => exact h w.env
    | op o next ih =>
      intro r v hr
      obtain ⟨env, rfl, rfl⟩ := exists_step_of_sees hr
      refine ih _ fun rest => ?_
      obtain ⟨env', hstep⟩ := step_refill o (w.under env) rest
      have hrun := h env'
      rw [Prog.run, show w.under env' = (w.under env).under env' from rfl, hstep] at hrun
      exact hrun

end ValkeyRs.Storage

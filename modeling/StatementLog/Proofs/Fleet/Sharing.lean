import StatementLog.Proofs.Fleet.Steady
import StatementLog.Proofs.Replay.Outcome

namespace StatementLog

variable {μ κ : Type}

structure Site.Private [CommandLog μ κ] [LawfulLog μ] (s s' : Site μ κ Engine) : Prop
    extends Site.Drift s s' where
  same : s'.log = s.log
  executor : s'.executor = s.executor
  broker : s'.broker = s.broker

namespace Lifetime

def meet (x : Lifetime μ κ Engine) (m : μ) (b : Broker) : Lifetime μ κ Engine :=
  { x with site := { x.site with log := m, broker := b } }

end Lifetime

/-- What a member itself holds of the log and of the broker is out of date; the fleet has them. -/
structure Fleet (k : Nat) (μ κ : Type) where
  log : μ
  broker : Broker
  member : Fin k → Lifetime μ κ Engine

namespace Fleet

variable {k : Nat}

def node (F : Fleet k μ κ) (i : Fin k) : Lifetime μ κ Engine :=
  (F.member i).meet F.log F.broker

def put (F : Fleet k μ κ) (i : Fin k) (y : Lifetime μ κ Engine) : Fleet k μ κ where
  log := y.site.log
  broker := y.site.broker
  member := Function.update F.member i y

theorem node_put_self (F : Fleet k μ κ) (i : Fin k) (y : Lifetime μ κ Engine) :
    (F.put i y).node i = y := by
  show (Function.update F.member i y i).meet y.site.log y.site.broker = y
  rw [Function.update_self]
  rfl

theorem node_put_of_ne {F : Fleet k μ κ} {i j : Fin k} (h : j ≠ i) (y : Lifetime μ κ Engine) :
    (F.put i y).node j = (F.node j).meet y.site.log y.site.broker := by
  show (Function.update F.member i y j).meet y.site.log y.site.broker = _
  rw [Function.update_of_ne h]
  rfl

variable [CommandLog μ κ] [LawfulLog μ]

inductive Step : Fleet k μ κ → Fleet k μ κ → Prop where
  | act {F : Fleet k μ κ} {i : Fin k} {y : Lifetime μ κ Engine} :
      (F.node i).advance? = some y → Step F (F.put i y)
  | change {F : Fleet k μ κ} {i : Fin k} {s : Site μ κ Engine} :
      (F.node i).site.Private s → Step F (F.put i { F.node i with site := s })
  | grow {F : Fleet k μ κ} {m : μ} : Grows F.log m → Step F { F with log := m }

def Reaches : Fleet k μ κ → Fleet k μ κ → Prop :=
  Relation.ReflTransGen Step

structure Begins (c : Catalog) (b : Broker) (F : Fleet k μ κ) : Prop where
  broker : F.broker = b
  fresh (i : Fin k) : ∃ task s, F.node i = Lifetime.ofSite task s ∧ s.Fresh
  catalog (i : Fin k) : (F.node i).site.executor.catalog = c

theorem exists_reaches {F : Fleet k μ κ} {i : Fin k} {y : Lifetime μ κ Engine}
    (h : Lifetime.Reaches Site.Private (F.node i) y) :
    ∃ G, F.Reaches G ∧ G.node i = y ∧ G.log = y.site.log ∧ G.broker = y.site.broker ∧
      ∀ j, j ≠ i → G.node j = (F.node j).meet y.site.log y.site.broker := by
  induction h with
  | refl => exact ⟨F, .refl, rfl, rfl, rfl, fun _ _ => rfl⟩
  | tail _ hs ih =>
    obtain ⟨G, hG, rfl, -, -, hothers⟩ := ih
    have hmeet (z : Lifetime μ κ Engine) (j : Fin k) (hj : j ≠ i) :
        (G.put i z).node j = (F.node j).meet z.site.log z.site.broker := by
      rw [node_put_of_ne hj, hothers j hj]
      rfl
    cases hs with
    | act ha =>
      exact ⟨_, hG.tail (.act ha), node_put_self .., rfl, rfl, hmeet _⟩
    | change hc =>
      exact ⟨_, hG.tail (.change hc), node_put_self .., rfl, rfl, hmeet _⟩

theorem passing_private : Passing (Site.Private : Site μ κ Engine → Site μ κ Engine → Prop) :=
  fun s now turns hb => ⟨passing_drift s now turns hb, rfl, rfl, rfl⟩

theorem grows_advance {x y : Lifetime μ κ Engine} (h : x.Orderly) (hy : x.advance? = some y) :
    Grows x.site.log y.site.log := by
  obtain ⟨hview, hsize, -⟩ := Lifetime.advance?_view hy
  exact ⟨Nat.le_of_eq hsize.symm, fun _ => congrFun hview _, hsize ▸ h.1⟩

theorem drift_meet {x : Lifetime μ κ Engine} {m : μ} (h : Grows x.site.log m) (b : Broker) :
    x.site.Drift (x.meet m b).site :=
  ⟨h, rfl, rfl, rfl, rfl, rfl, rfl, rfl, id⟩

end Fleet

end StatementLog

import StatementLog.Proofs.Engine.Recognition

namespace StatementLog

def alone (view : Nat → Option Command) (c : Catalog) (b : Broker) : Nat → Catalog × Broker
  | 0 => (c, b)
  | n + 1 =>
    match view n with
    | some command => ((alone view c b n).1.settle (alone view c b n).2 command).2
    | none => alone view c b n

def answer (view : Nat → Option Command) (c : Catalog) (b : Broker) (command : Command) :
    Except Failure Effect :=
  ((alone view c b command.offset).1.settle (alone view c b command.offset).2 command).1

section

variable {view view' : Nat → Option Command} {c : Catalog} {b : Broker} {n : Nat}

theorem alone_succ {command : Command} (h : view n = some command) :
    alone view c b (n + 1) = ((alone view c b n).1.settle (alone view c b n).2 command).2 := by
  rw [alone, h]

theorem alone_congr (h : ∀ k < n, view' k = view k) : alone view' c b n = alone view c b n := by
  induction n with
  | zero => rfl
  | succ n ih =>
    have ih := ih fun k hk => h k (Nat.lt_succ_of_lt hk)
    rw [alone, alone, h n (Nat.lt_succ_self n), ih]

theorem alone_available (hb : b.available = true) (n : Nat) :
    (alone view c b n).2.available = true := by
  induction n with
  | zero => exact hb
  | succ n ih =>
    rw [alone]
    split
    · rw [Catalog.settle, Plan.settle_broker ih, Broker.available_assign]
      exact ih
    · exact ih

theorem alone_undeletable (hb : b.available = true) (n : Nat) :
    (alone view c b n).2.undeletable = b.undeletable := by
  induction n with
  | zero => rfl
  | succ n ih =>
    rw [alone]
    split
    · rw [Catalog.settle, Plan.settle_broker (alone_available hb n), Broker.undeletable_assign]
      exact ih
    · exact ih

end

end StatementLog

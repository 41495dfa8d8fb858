import StatementLog.Node.Activity
import StatementLog.Proofs.Command.RoundTrip

namespace StatementLog

inductive LogCall where
  | append (record : Record)
  | poll
  | endPosition
  | position
  | rewind
  | close
  deriving DecidableEq

namespace LogCall

def checks : LogCall → Bool
  | append _ | poll | endPosition | rewind => true
  | position | close => false

def perform {μ κ : Type} [CommandLog μ κ] (m : μ) (k : κ) : LogCall → Reply × μ × κ
  | append r =>
    match CommandLog.append m k r with
    | (.error e, m) => (.error e, m, k)
    | (.ok n, m) => (.ok (.appended n), CommandLog.announce m k, k)
  | poll =>
    match CommandLog.check m k with
    | .error e => (.error e, m, k)
    | .ok () =>
      let (r, k) := CommandLog.read m k
      (r.map .batch, m, k)
  | endPosition =>
    let (r, m) := CommandLog.endPosition m k
    (r.map .ending, m, k)
  | position => (.ok (.ending (CommandLog.position μ k)), m, k)
  | rewind =>
    match CommandLog.check m k with
    | .error e => (.error e, m, k)
    | .ok () => (.ok .done, m, CommandLog.rewind μ k)
  | close =>
    let k := CommandLog.close μ k
    (.ok .done, CommandLog.announce m k, k)

def acknowledged? : LogCall → Reply → Option Record
  | append r, .ok _ => some r
  | _, _ => none

def Sound : LogCall → Prop
  | append r => r.Readable
  | _ => True

instance : (call : LogCall) → Decidable call.Sound
  | append r => inferInstanceAs (Decidable r.Readable)
  | poll | endPosition | position | rewind | close => isTrue trivial

def activity? : LogCall → Option Activity
  | append r => some (.appending (.writing r.id r.payload))
  | poll => some (.polling (.arriving 0))
  | endPosition => some .measuring
  | position => none
  | rewind => some (.rewinding .arriving)
  | close => some .detaching

end LogCall

namespace Activity

variable {μ κ ε : Type} [CommandLog μ κ] [Executor ε]

inductive Alone (task : Nat) : Site μ κ ε → Activity → Site μ κ ε → Reply → Prop where
  | done {s s' : Site μ κ ε} {a : Activity} {reply : Reply} :
    a.step task s = .done s' reply → Alone task s a s' reply
  | next {s s' s'' : Site μ κ ε} {a a' : Activity} {reply : Reply} :
    a.step task s = .next s' a' → Alone task s' a' s'' reply → Alone task s a s'' reply

end Activity

namespace LogCall

variable {μ κ ε : Type} [CommandLog μ κ] [Executor ε]

structure Made (call : LogCall) (s s' : Site μ κ ε) (reply : Reply) : Prop where
  reply : reply = (call.perform s.log s.node.client).1
  log : s'.log = (call.perform s.log s.node.client).2.1
  client : s'.node.client = (call.perform s.log s.node.client).2.2

theorem append_alone (task : Nat) (s : Site μ κ ε) (id : CommandId) (payload : Payload) :
    ∃ s' reply, Activity.Alone task s (.appending (.writing id payload)) s' reply ∧
      (append ⟨id, payload, s.origin + s.now⟩).Made s s' reply := by
  cases hres : CommandLog.append s.log s.node.client ⟨id, payload, s.origin + s.now⟩ with
  | mk result log =>
  cases result with
  | error e =>
    refine ⟨{ s with log }, .error e, .done ?_, ?_⟩
    · simp only [Activity.step, Appending.step, hres]
      rfl
    · constructor <;> simp only [perform, hres]
  | ok n =>
    have hwriting : Activity.step task s (.appending (.writing id payload)) =
        .next { s with log } (.appending (.announcing n)) := by
      simp only [Activity.step, Appending.step, hres]
      rfl
    refine ⟨Site.announce { s with log }, .ok (.appended n), .next hwriting (.done rfl), ?_⟩
    constructor <;> simp only [perform, hres] <;> rfl

omit [CommandLog μ κ] [Executor ε] in
theorem hasTurn_arrive (task : Nat) {s : Site μ κ ε} (h : s.node.turns = []) :
    (s.mapNode fun n => n.arrive task).node.hasTurn task = true := by
  simp only [Site.mapNode, Node.arrive, Node.hasTurn, h, List.nil_append, List.head?_cons,
    decide_true]

theorem checking_alone (task : Nat) {s : Site μ κ ε}
    (he : CommandLog.epoch s.log (CommandLog.read s.log s.node.client).2 = s.epoch) :
    ∃ s' reply, Activity.Alone task s (.polling (.checking s.now s.epoch)) s' reply ∧
      poll.Made s s' reply := by
  cases hcheck : CommandLog.check s.log s.node.client with
  | error e =>
    refine ⟨s.mapNode fun n => n.depart task, .error e, .done ?_, ?_⟩
    · simp only [Activity.step, Polling.step, Site.check, hcheck]
      rfl
    · constructor <;> simp only [perform, hcheck] <;> rfl
  | ok _ =>
    have hreading : Activity.step task s (.polling (.checking s.now s.epoch)) =
        .next s (.polling (.reading s.now s.epoch)) := by
      simp only [Activity.step, Polling.step, Site.check, hcheck]
      rfl
    cases hread : CommandLog.read s.log s.node.client with
    | mk result client =>
    have hmade (s' : Site μ κ ε) (hlog : s'.log = s.log) (hclient : s'.node.client = client) :
        poll.Made s s' (result.map .batch) := by
      constructor <;> simp only [perform, hcheck, hread] <;> assumption
    let s₁ := s.mapNode fun n => { n with client }
    cases result with
    | error e =>
      refine ⟨s₁.mapNode fun n => n.depart task, _, .next hreading (.done ?_), hmade _ rfl rfl⟩
      simp only [Activity.step, Polling.step, hread]
      rfl
    | ok batch =>
    cases batch with
    | cons c cs =>
      refine ⟨s₁.mapNode fun n => n.depart task, _, .next hreading (.done ?_), hmade _ rfl rfl⟩
      simp only [Activity.step, Polling.step, hread]
      rfl
    | nil =>
      refine ⟨s₁.mapNode fun n => n.depart task, _, .next hreading ?_, hmade _ rfl rfl⟩
      cases hpatience : CommandLog.patience s.log s.node.client with
      | some p =>
        refine .done ?_
        simp only [Activity.step, Polling.step, hread, hpatience, Site.mapNode, Nat.le_refl,
          if_true]
        rfl
      | none =>
        have hwaiting : Activity.step task s (.polling (.reading s.now s.epoch)) =
            .next s₁ (.polling (.waiting s.now s.epoch none)) := by
          simp only [Activity.step, Polling.step, hread, hpatience]
          rfl
        refine .next hwaiting (.done ?_)
        rw [hread] at he
        have hepoch : s₁.epoch = s.epoch := he
        have hnow : s₁.now = s.now := rfl
        simp only [Activity.step, Polling.step, hepoch, hnow, ne_eq, not_true_eq_false, if_false,
          Nat.le_refl, if_true]
        rfl

theorem poll_alone (task : Nat) {s : Site μ κ ε} (h : s.node.turns = [])
    (he : CommandLog.epoch s.log (CommandLog.read s.log s.node.client).2 = s.epoch) :
    ∃ s' reply, Activity.Alone task s (.polling (.arriving 0)) s' reply ∧
      poll.Made s s' reply := by
  let s₁ := s.mapNode fun n => n.arrive task
  have hturn : s₁.node.hasTurn task = true := hasTurn_arrive task h
  have hqueued : Activity.step task s₁ (.polling (.queued 0)) =
      .next s₁ (.polling (.enlisting s₁.now)) := by
    simp only [Activity.step, Polling.step, hturn, if_true]
    rfl
  obtain ⟨s', reply, halone, hmade⟩ := checking_alone task (s := s₁) he
  exact ⟨s', reply, .next rfl (.next hqueued (.next rfl halone)), hmade.reply, hmade.log,
    hmade.client⟩

theorem rewind_alone (task : Nat) {s : Site μ κ ε} (h : s.node.turns = []) :
    ∃ s' reply, Activity.Alone task s (.rewinding .arriving) s' reply ∧
      rewind.Made s s' reply := by
  cases hcheck : CommandLog.check s.log s.node.client with
  | error e =>
    refine ⟨s, .error e, .done ?_, ?_⟩
    · simp only [Activity.step, Rewinding.step, Site.check, hcheck]
      rfl
    · constructor <;> simp only [perform, hcheck]
  | ok _ =>
    let s₁ := s.mapNode fun n => n.arrive task
    have hturn : s₁.node.hasTurn task = true := hasTurn_arrive task h
    have harriving : Activity.step task s (.rewinding .arriving) =
        .next s₁ (.rewinding .queued) := by
      simp only [Activity.step, Rewinding.step, Site.check, hcheck]
      rfl
    refine ⟨s₁.mapNode fun n => { n.depart task with client := CommandLog.rewind μ n.client },
      .ok .done, .next harriving (.done ?_), ?_⟩
    · simp only [Activity.step, Rewinding.step, hturn, if_true]
      rfl
    · constructor <;> simp only [perform, hcheck] <;> rfl

theorem activity_alone (task : Nat) {s : Site μ κ ε} (h : s.node.turns = [])
    (he : CommandLog.epoch s.log (CommandLog.read s.log s.node.client).2 = s.epoch)
    {call : LogCall} {a : Activity} (ha : call.activity? = some a)
    (hr : ∀ r, call = .append r → r.stamp = s.origin + s.now) :
    ∃ s' reply, Activity.Alone task s a s' reply ∧ call.Made s s' reply := by
  cases call with
  | append r =>
    cases ha
    obtain ⟨s', reply, halone, hmade⟩ := append_alone task s r.id r.payload
    rw [← hr r rfl] at hmade
    exact ⟨s', reply, halone, hmade⟩
  | poll =>
    cases ha
    exact poll_alone task h he
  | endPosition =>
    cases ha
    exact ⟨_, _, .done rfl, rfl, rfl, rfl⟩
  | position => cases ha
  | rewind =>
    cases ha
    exact rewind_alone task h
  | close =>
    cases ha
    exact ⟨_, _, .done rfl, rfl, rfl, rfl⟩

end LogCall

end StatementLog

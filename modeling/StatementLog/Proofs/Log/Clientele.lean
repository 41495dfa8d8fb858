import StatementLog.Proofs.Node.Station

namespace StatementLog

inductive Demand where
  | append (id : CommandId) (payload : Payload)
  | poll (timeout : Nat)
  | endPosition
  | rewind
  | close
  deriving DecidableEq

namespace Demand

def activity : Demand → Activity
  | append id payload => .appending (.writing id payload)
  | poll timeout => .polling (.arriving timeout)
  | endPosition => .measuring
  | rewind => .rewinding .arriving
  | close => .detaching

def Sound : Demand → Prop
  | append id _ => id.entity ≠ ""
  | _ => True

instance : (d : Demand) → Decidable d.Sound
  | append id _ => inferInstanceAs (Decidable (id.entity ≠ ""))
  | poll _ | endPosition | rewind | close => isTrue trivial

def Suits : Demand → Activity → Prop
  | append id payload, .appending (.writing id' payload') => id' = id ∧ payload' = payload
  | append _ _, .appending (.announcing _) => True
  | poll _, .polling _ => True
  | endPosition, .measuring => True
  | rewind, .rewinding _ => True
  | close, .detaching => True
  | _, _ => False

theorem suits_activity (d : Demand) : d.Suits d.activity := by
  cases d with
  | append id payload => exact ⟨rfl, rfl⟩
  | _ => trivial

end Demand

def Progress.reply? : Progress → Option Reply
  | .busy _ => none
  | .answered reply => some reply

structure Errand where
  client : Nat
  demand : Demand
  progress : Progress

def Errand.ofDemand (client : Nat) (demand : Demand) : Errand :=
  { client, demand, progress := .busy demand.activity }

/-- What a client itself holds of the log and of the time is out of date; the clientele has them. -/
structure Clientele (μ κ ε : Type) where
  log : μ
  now : Nat := 0
  time : Int64 := 0
  clients : List (Site μ κ ε)
  errands : List Errand := []
  history : List Errand := []

namespace Clientele

variable {μ κ ε : Type}

def site? (x : Clientele μ κ ε) (client : Nat) : Option (Site μ κ ε) :=
  (x.clients[client]?).map fun s =>
    { s with log := x.log, now := x.now, origin := x.time.toInt - x.now }

def ask (x : Clientele μ κ ε) (client : Nat) (demand : Demand) : Clientele μ κ ε :=
  { x with errands := x.errands ++ [.ofDemand client demand] }

def put (x : Clientele μ κ ε) (s : Site μ κ ε) (errand : Nat) (e : Errand) : Clientele μ κ ε :=
  { x with
    log := s.log
    clients := x.clients.set e.client s
    errands := x.errands.set errand e }

def demand? (x : Clientele μ κ ε) (errand : Nat) : Option Demand :=
  (x.errands[errand]?).map Errand.demand

def reply? (x : Clientele μ κ ε) (errand : Nat) : Option Reply :=
  (x.errands[errand]?).bind fun e => e.progress.reply?

def remember (x : Clientele μ κ ε) (e : Errand) : Clientele μ κ ε :=
  { x with history := x.history ++ [e] }

variable [CommandLog μ κ] [Executor ε]

def turn? (x : Clientele μ κ ε) (errand : Nat) : Option (Clientele μ κ ε) := do
  let e ← x.errands[errand]?
  let a ← e.progress.activity?
  match a.step errand (← x.site? e.client) with
  | .wait => none
  | .next s a => return x.put s errand { e with progress := .busy a }
  | .done s reply =>
    let e := { e with progress := .answered reply }
    return (x.put s errand e).remember e

def turn (x : Clientele μ κ ε) (errand : Nat) : Clientele μ κ ε :=
  (x.turn? errand).getD x

def isStill (x : Clientele μ κ ε) : Bool :=
  (List.range x.errands.length).all fun j => (x.turn? j).isNone

variable {x y : Clientele μ κ ε} {i j : Nat}

theorem turn_cases (x : Clientele μ κ ε) (j : Nat) :
    x.turn j = x ∨ x.turn? j = some (x.turn j) := by
  rw [turn]
  cases x.turn? j with
  | none => exact .inl rfl
  | some y => exact .inr rfl

theorem turn?_cases (h : x.turn? j = some y) :
    ∃ e a s, x.errands[j]? = some e ∧ e.progress = .busy a ∧ x.site? e.client = some s ∧
      ((∃ s' a', a.step j s = .next s' a' ∧ y = x.put s' j { e with progress := .busy a' }) ∨
        ∃ s' reply, a.step j s = .done s' reply ∧
          y = (x.put s' j { e with progress := .answered reply }).remember
            { e with progress := .answered reply }) := by
  obtain ⟨e, he, h⟩ := Option.bind_eq_some_iff.1 h
  obtain ⟨a, ha, h⟩ := Option.bind_eq_some_iff.1 h
  obtain ⟨s, hs, h⟩ := Option.bind_eq_some_iff.1 h
  refine ⟨e, a, s, he, ?_, hs, ?_⟩
  · cases hp : e.progress with
    | busy a' =>
      rw [hp] at ha
      cases ha
      rfl
    | answered reply =>
      rw [hp] at ha
      cases ha
  · cases hm : a.step j s with
    | wait =>
      rw [hm] at h
      cases h
    | next s' a' =>
      rw [hm] at h
      cases h
      exact .inl ⟨s', a', rfl, rfl⟩
    | done s' reply =>
      rw [hm] at h
      cases h
      exact .inr ⟨s', reply, rfl, rfl⟩

omit [CommandLog μ κ] [Executor ε] in
theorem answered_of_reply? {reply : Reply} (h : x.reply? j = some reply) :
    ∃ e, x.errands[j]? = some e ∧ e.progress = .answered reply := by
  obtain ⟨e, he, hr⟩ := Option.bind_eq_some_iff.1 h
  refine ⟨e, he, ?_⟩
  cases hp : e.progress with
  | busy a =>
    rw [hp] at hr
    cases hr
  | answered reply' =>
    rw [hp] at hr
    cases hr
    rfl

omit [CommandLog μ κ] [Executor ε] in
theorem site?_eq_some {s : Site μ κ ε} (h : x.site? i = some s) :
    ∃ k, x.clients[i]? = some k ∧ s.node = k.node ∧ s.log = x.log ∧ s.now = x.now ∧
      s.origin + s.now = x.time.toInt := by
  obtain ⟨k, hk, rfl⟩ := Option.map_eq_some_iff.1 h
  exact ⟨k, hk, rfl, rfl, rfl, Int.sub_add_cancel ..⟩

end Clientele

end StatementLog

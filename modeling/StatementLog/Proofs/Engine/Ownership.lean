import Mathlib.Data.List.Infix
import StatementLog.Proofs.Engine.Accounting
import StatementLog.Proofs.Engine.Backing

namespace StatementLog

open Std

namespace Plan

variable {p : Plan} {b : Broker} {o : Catalog.Outcome} {t : String}

theorem run_broker (hb : b.available = true) (h : p.run b = .ok o) :
    o.2.2 = b.assign (p.change? b.undeletable) := by
  have hs := settle_broker (p := p) (c := o.2.1) hb
  rwa [settle, h] at hs

theorem run_spares (hb : b.available = true) (h : p.run b = .ok o)
    (hu : b.undeletable.contains t = true) (ht : b.topics.contains t = true) :
    o.2.2.topics.contains t = true := by
  rw [run_broker hb h, Broker.contains_assign]
  cases p with
  | refuse _ => exact ht
  | accept _ _ => exact ht
  | require _ _ _ => exact ht
  | create k _ _ => by_cases hk : k = t <;> simp [change?, hk, ht]
  | delete k _ _ =>
    cases hc : b.undeletable.contains k with
    | true => simpa [change?, hc] using ht
    | false =>
      have hk : k ≠ t := by
        rintro rfl
        rw [hu] at hc
        cases hc
      simpa [change?, hc, hk] using ht

end Plan

namespace Engine

def Selects (x : Engine × Broker) (command : Command) (topic : String) : Prop :=
  ∃ kind sources ifNotExists effect,
    Enacts x.1 (.apply x.2 command .live) command
      (.createAsSelect kind topic sources ifNotExists) effect ∧ x.1.catalog.source? topic = none

def Standing (x : Engine × Broker) (commands : List Command) (topic : String) : Prop :=
  ∀ earlier, earlier <+: commands → (serveAll x earlier).2.topics.contains topic = true

/-- A command of the run has made the topic, which was not on the broker just before. -/
def Founded (x : Engine × Broker) (commands : List Command) (topic : String) : Prop :=
  ∃ earlier command, earlier ++ [command] <+: commands ∧
    Selects (serveAll x earlier) command topic ∧
      (serveAll x earlier).2.topics.contains topic = false

variable {x : Engine × Broker} {command : Command} {topics : List String} {topic t : String}

theorem Selects.owned (hb : x.2.available = true) (h : Selects x command t) :
    (serve x command).1.catalog.managed.contains t = true ∧
      (serve x command).2.topics.contains t = true := by
  obtain ⟨kind, sources, ifNotExists, effect, hx, hs⟩ := h
  obtain ⟨_, _, d, b', ⟨⟩, -, hx, ha⟩ := hx.inv
  simp only [Catalog.execute, Catalog.createAsSelect_eq, Catalog.planCreateAsSelect, hs,
    Option.isSome_none, Bool.false_eq_true, if_false] at hx
  split at hx
  · cases hx
  · cases Plan.create_run_ok hb hx
    rw [serve, ha]
    constructor
    · show (x.1.catalog.managed.insert t).contains t = true
      simp
    · simp [Broker.addTopic]

theorem serve_outcome (x : Engine × Broker) (command : Command) :
    serve x command = x ∨
      (∃ topics, serve x command =
        (x.1.publish ((x.1.catalog.terminateCluster x.2 topics).2.1.recordApplied command),
          (x.1.catalog.terminateCluster x.2 topics).2.2)) ∨
      ∃ statement effect d b', Enacts x.1 (.apply x.2 command .live) command statement effect ∧
        (x.1.catalog.planStatement command .live statement).run x.2 = .ok (effect, d, b') ∧
        serve x command = (x.1.publish (d.recordApplied command), b') := by
  rcases x.1.idle_or_enacts x.2 command .live with ha | ⟨statement, effect, hx⟩
  · exact .inl ha
  · obtain ⟨_, _, d, b', ⟨⟩, -, he, ha⟩ := hx.inv
    have hserve : serve x command = (x.1.publish (d.recordApplied command), b') := by rw [serve, ha]
    rcases Catalog.execute_cases he with ⟨topics, -, ho⟩ | ⟨-, hp⟩
    · cases ho
      exact .inr (.inl ⟨topics, hserve⟩)
    · exact .inr (.inr ⟨statement, effect, d, b', hx, hp, hserve⟩)

theorem serve_gains (hb : x.2.available = true) (command : Command) (t : String) :
    ((serve x command).1.catalog.managed.contains t = true →
        x.1.catalog.managed.contains t = true ∨ Selects x command t) ∧
      ((serve x command).2.topics.contains t = true →
        x.2.topics.contains t = true ∨ Selects x command t) := by
  rcases serve_outcome x command with
    hs | ⟨topics, hs⟩ | ⟨statement, effect, d, b', hx, hp, hs⟩
  · rw [hs]
    exact ⟨.inl, .inl⟩
  · rw [hs]
    exact ⟨fun h => .inl (Catalog.managed_of_terminateCluster h),
      fun h => .inl (Broker.contains_of_release h)⟩
  · rw [hs]
    show (d.managed.contains t = true → _) ∧ (b'.topics.contains t = true → _)
    cases Catalog.planStatement_touch hb hp with
    | rest _ _ hm => exact ⟨fun h => .inl (hm ▸ h), .inl⟩
    | declare _ _ _ _ _ hm => exact ⟨fun h => .inl (hm ▸ h), .inl⟩
    | drop _ _ _ _ hm => exact ⟨fun h => .inl (hm ▸ h), .inl⟩
    | purge _ _ _ _ hm =>
      have hm' : d.managed = x.1.catalog.managed.erase _ := hm
      simp only [hm', ExtTreeSet.contains_erase, Bool.and_eq_true]
      exact ⟨fun h => .inl h.2, fun h => .inl h.2⟩
    | @make kind name sources ifNotExists _ s _ hnone _ hm =>
      have hm' : d.managed = x.1.catalog.managed.insert name := hm
      simp only [hm', ExtTreeSet.contains_insert]
      by_cases hname : name = t
      · subst hname
        have hselects : Selects x command name :=
          ⟨kind, sources, ifNotExists, effect, hx, hnone⟩
        exact ⟨fun _ => .inr hselects, fun _ => .inr hselects⟩
      · refine ⟨fun h => .inl ?_, fun h => .inl ?_⟩ <;> simpa [hname] using h

theorem serve_spares (hb : x.2.available = true) (command : Command) :
    (serve x command).2.undeletable = x.2.undeletable ∧
      ∀ t, x.2.undeletable.contains t = true → x.2.topics.contains t = true →
        (serve x command).2.topics.contains t = true := by
  rcases serve_outcome x command with
    hs | ⟨topics, hs⟩ | ⟨statement, effect, d, b', -, hp, hs⟩
  · rw [hs]
    exact ⟨rfl, fun _ _ ht => ht⟩
  · rw [hs]
    exact ⟨Broker.release_undeletable hb _,
      fun t hu ht => (Broker.contains_release hb).2 ⟨ht, fun _ => hu⟩⟩
  · rw [hs]
    refine ⟨?_, fun t hu ht => Plan.run_spares hb hp hu ht⟩
    exact (congrArg Broker.undeletable (Plan.run_broker hb hp)).trans (Broker.undeletable_assign ..)

section

variable {b : Broker} {commands : List Command}

theorem serveAll_available (hb : b.available = true) (topic : String) (commands : List Command) :
    (serveAll (ofCommandTopic topic, b) commands).2.available = true :=
  (serveAll_rooted hb (Catalog.ofCommandTopic_rooted topic) commands).1

theorem serveAll_spares (hb : b.available = true) (topic : String) (commands : List Command) :
    (serveAll (ofCommandTopic topic, b) commands).2.undeletable = b.undeletable ∧
      ∀ t, b.undeletable.contains t = true → b.topics.contains t = true →
        (serveAll (ofCommandTopic topic, b) commands).2.topics.contains t = true := by
  induction commands using List.reverseRecOn with
  | nil => exact ⟨rfl, fun _ _ ht => ht⟩
  | append_singleton commands command ih =>
    obtain ⟨hu, hkeep⟩ := serve_spares (serveAll_available hb topic commands) command
    rw [serveAll_concat]
    exact ⟨hu.trans ih.1, fun t ht hc => hkeep t (ih.1 ▸ ht) (ih.2 t ht hc)⟩

theorem Founded.mono {more : List Command} (hp : commands <+: more) (h : Founded x commands t) :
    Founded x more t := by
  obtain ⟨earlier, command, he, hf⟩ := h
  exact ⟨earlier, command, he.trans hp, hf⟩

theorem Standing.mono {more : List Command} (hp : commands <+: more) (h : Standing x more t) :
    Standing x commands t :=
  fun earlier he => h earlier (he.trans hp)

theorem Standing.concat (h : Standing x commands t)
    (hnow : (serveAll x (commands ++ [command])).2.topics.contains t = true) :
    Standing x (commands ++ [command]) t := by
  intro earlier hp
  rcases List.prefix_concat_iff.1 hp with rfl | hp
  · exact hnow
  · exact h earlier hp

theorem Standing.not_founded (h : Standing x commands t) : ¬ Founded x commands t := by
  rintro ⟨earlier, command, hp, -, habsent⟩
  rw [h earlier ((List.prefix_append ..).trans hp)] at habsent
  cases habsent

theorem standing_of_undeletable (hb : b.available = true)
    (hu : b.undeletable.contains t = true) (ht : b.topics.contains t = true)
    (commands : List Command) : Standing (ofCommandTopic topic, b) commands t :=
  fun earlier _ => (serveAll_spares hb topic earlier).2 t hu ht

theorem standing_or_founded (hb : b.available = true)
    (h : (serveAll (ofCommandTopic topic, b) commands).2.topics.contains t = true) :
    Standing (ofCommandTopic topic, b) commands t ∨ Founded (ofCommandTopic topic, b) commands t := by
  induction commands using List.reverseRecOn with
  | nil =>
    refine .inl fun earlier hp => ?_
    rwa [List.prefix_nil.1 hp]
  | append_singleton commands command ih =>
    cases hc : (serveAll (ofCommandTopic topic, b) commands).2.topics.contains t with
    | true => exact (ih hc).imp (.concat · h) (.mono (List.prefix_append ..))
    | false =>
      -- the last command has brought the topic, and only a selection does so
      rw [serveAll_concat] at h
      rcases (serve_gains (serveAll_available hb topic commands) command t).2 h with hold | hs
      · rw [hold] at hc
        cases hc
      · exact .inr ⟨commands, command, List.prefix_refl _, hs, hc⟩

theorem selected_of_managed (hb : b.available = true)
    (h : (serveAll (ofCommandTopic topic, b) commands).1.catalog.managed.contains t = true)
    (hne : t ≠ topic) :
    ∃ earlier command, earlier ++ [command] <+: commands ∧
      Selects (serveAll (ofCommandTopic topic, b) earlier) command t := by
  induction commands using List.reverseRecOn with
  | nil =>
    simp [serveAll, ofCommandTopic, Catalog.ofCommandTopic, Catalog.manage, Catalog.addSource,
      hne.symm] at h
  | append_singleton commands command ih =>
    rw [serveAll_concat] at h
    rcases (serve_gains (serveAll_available hb topic commands) command t).1 h with hold | hs
    · obtain ⟨earlier, earlierCommand, hp, hs⟩ := ih hold
      exact ⟨earlier, earlierCommand, hp.trans (List.prefix_append ..), hs⟩
    · exact ⟨commands, command, List.prefix_refl _, hs⟩

theorem founded_or_adopted (hb : b.available = true)
    (h : (serveAll (ofCommandTopic topic, b) commands).1.catalog.managed.contains t = true)
    (hne : t ≠ topic) :
    Founded (ofCommandTopic topic, b) commands t ∨
      ∃ earlier command, earlier ++ [command] <+: commands ∧
        Standing (ofCommandTopic topic, b) earlier t ∧
          Selects (serveAll (ofCommandTopic topic, b) earlier) command t := by
  obtain ⟨earlier, command, hp, hs⟩ := selected_of_managed hb h hne
  cases hc : (serveAll (ofCommandTopic topic, b) earlier).2.topics.contains t with
  | false => exact .inl ⟨earlier, command, hp, hs, hc⟩
  | true =>
    rcases standing_or_founded hb hc with hstands | hfounded
    · exact .inr ⟨earlier, command, hp, hstands, hs⟩
    · exact .inl (hfounded.mono ((List.prefix_append ..).trans hp))

theorem applied_of_serveAll {id : CommandId} {n : Nat}
    (h : (serveAll (ofCommandTopic topic, b) commands).1.catalog.applied[id]? = some n) :
    ∃ command ∈ commands, command.offset = n := by
  induction commands using List.reverseRecOn with
  | nil => simp [serveAll, ofCommandTopic, Catalog.ofCommandTopic, Catalog.manage,
      Catalog.addSource] at h
  | append_singleton commands command ih =>
    rw [serveAll_concat] at h
    change ((serveAll (ofCommandTopic topic, b) commands).1.act
      (.apply _ command .live)).catalog.applied[id]? = some n at h
    rcases applied_of_act h with hold | ⟨_, _, _, ⟨⟩, -, ho⟩
    · obtain ⟨earlier, hm, he⟩ := ih hold
      exact ⟨earlier, List.mem_append_left _ hm, he⟩
    · exact ⟨command, by simp, ho⟩

/-- What the cluster takes for its own is what it has made. It manages the topics that were founded
in the run, and a request to terminate it takes none of the `old` ones; the command topic apart. -/
structure Owns (topic : String) (b : Broker) (old : String → Prop) (commands : List Command) :
    Prop where
  managed : ∀ t ≠ topic,
    (serveAll (ofCommandTopic topic, b) commands).1.catalog.managed.contains t = true →
      Founded (ofCommandTopic topic, b) commands t
  spares : ∀ command, Statement.read command.payload.statement = .ok (.terminateCluster []) →
    (∀ earlier ∈ commands, earlier.offset < command.offset) → ∀ t ≠ topic, old t →
      (serveAll (ofCommandTopic topic, b) commands).2.topics.contains t = true →
        (serve (serveAll (ofCommandTopic topic, b) commands) command).2.topics.contains t = true

theorem exists_later (commands : List Command) :
    ∃ n, ∀ command ∈ commands, command.offset < n := by
  induction commands with
  | nil => exact ⟨0, by simp⟩
  | cons command commands ih =>
    obtain ⟨n, hn⟩ := ih
    refine ⟨max n (command.offset + 1), fun other hm => ?_⟩
    rcases List.mem_cons.1 hm with rfl | hm
    · omega
    · have := hn other hm
      omega

theorem read_termination (n : Nat) :
    Statement.read (termination n).payload.statement = .ok (.terminateCluster []) := by
  show Statement.read "TERMINATE CLUSTER;" = .ok (.terminateCluster [])
  rfl

theorem serve_termination (hb : b.available = true)
    (hs : Statement.read command.payload.statement = .ok (.terminateCluster []))
    (hnew : ∀ earlier ∈ commands, earlier.offset < command.offset) :
    (serve (serveAll (ofCommandTopic topic, b) commands) command).2.topics.contains t = true ↔
      (serveAll (ofCommandTopic topic, b) commands).2.topics.contains t = true ∧
        ((serveAll (ofCommandTopic topic, b) commands).1.catalog.managed.contains t = true →
          b.undeletable.contains t = true) := by
  have hn : (serveAll (ofCommandTopic topic, b) commands).1.catalog.alreadyApplied command.id
      command.offset = false := by
    refine Bool.eq_false_iff.2 fun ha => ?_
    obtain ⟨n, hid, hle⟩ := Catalog.alreadyApplied_iff.1 ha
    obtain ⟨earlier, hm, rfl⟩ := applied_of_serveAll hid
    exact absurd (hnew earlier hm) (Nat.not_lt.2 hle)
  rw [serve, apply_terminateCluster hs hn,
    Catalog.contains_terminateCluster (serveAll_available hb topic commands),
    (serveAll_spares hb topic commands).1]
  simp

theorem owns_iff {old : List Command → String → Prop} (hb : b.available = true)
    (hfirst : ∀ commands t, old commands t → b.topics.contains t = true)
    (hstanding : ∀ commands t, Standing (ofCommandTopic topic, b) commands t → old commands t)
    (hmono : ∀ {commands more t}, commands <+: more → old more t → old commands t)
    (hselects : ∀ {commands command t}, old commands t →
      Selects (serveAll (ofCommandTopic topic, b) commands) command t →
        old (commands ++ [command]) t)
    (commands : List Command) :
    (∀ earlier, earlier <+: commands → Owns topic b (old earlier) earlier) ↔
      ∀ earlier command, earlier ++ [command] <+: commands → ∀ t ≠ topic, old earlier t →
        ¬ Selects (serveAll (ofCommandTopic topic, b) earlier) command t := by
  constructor
  · intro h earlier command hp t hne hold hs
    have howns := h _ hp
    obtain ⟨hmanaged, hon⟩ := hs.owned (serveAll_available hb topic earlier)
    rw [← serveAll_concat] at hmanaged hon
    cases hu : b.undeletable.contains t with
    | true =>
      -- the termination would spare the topic, but it is taken for one of the cluster's own
      exact (standing_of_undeletable hb hu (hfirst _ _ hold) _).not_founded
        (howns.managed t hne hmanaged)
    | false =>
      obtain ⟨n, hn⟩ := exists_later (earlier ++ [command])
      have hlost := howns.spares (termination n) (read_termination n) hn t hne (hselects hold hs) hon
      rw [serve_termination hb (read_termination n) hn, hu] at hlost
      cases hlost.2 hmanaged
  · intro h earlier hp
    constructor
    · intro t hne hm
      rcases founded_or_adopted hb hm hne with hf | ⟨first, command, hfirst, hstands, hs⟩
      · exact hf
      · exact absurd hs (h first command (hfirst.trans hp) t hne (hstanding _ _ hstands))
    · intro command hread hnew t hne hold hon
      refine (serve_termination hb hread hnew).2 ⟨hon, fun hm => ?_⟩
      obtain ⟨first, other, hfirst, hs⟩ := selected_of_managed hb hm hne
      have hprefix : first <+: earlier := (List.prefix_append ..).trans hfirst
      exact absurd hs (h first other (hfirst.trans hp) t hne (hmono hprefix hold))

/-- What a cluster manages was made by its own commands where it was absent, and its termination
takes nothing older than the run, the command topic apart: this holds throughout exactly as long as
no command selects a new source into a topic that has been on the broker since before the run. If
a topic is still to count as old when it has been deleted and made anew, then exactly as long as no
command selects a new source into any topic the broker had at first. -/
theorem termination_spares_iff (hb : b.available = true) (commands : List Command) :
    ((∀ earlier, earlier <+: commands →
        Owns topic b (Standing (ofCommandTopic topic, b) earlier) earlier) ↔
      ∀ earlier command, earlier ++ [command] <+: commands → ∀ t ≠ topic,
        Standing (ofCommandTopic topic, b) earlier t →
          ¬ Selects (serveAll (ofCommandTopic topic, b) earlier) command t) ∧
    ((∀ earlier, earlier <+: commands →
        Owns topic b (fun t => b.topics.contains t = true) earlier) ↔
      ∀ earlier command, earlier ++ [command] <+: commands → ∀ t ≠ topic,
        b.topics.contains t = true →
          ¬ Selects (serveAll (ofCommandTopic topic, b) earlier) command t) := by
  have hfirst {commands : List Command} {t : String}
      (h : Standing (ofCommandTopic topic, b) commands t) : b.topics.contains t = true :=
    h [] (List.nil_prefix)
  refine ⟨owns_iff hb (fun _ _ => hfirst) (fun _ _ h => h) (fun hp h => h.mono hp) ?_ commands,
    owns_iff hb (fun _ _ h => h) (fun _ _ => hfirst) (fun _ h => h) (fun h _ => h) commands⟩
  intro commands command t h hs
  refine h.concat ?_
  rw [serveAll_concat]
  exact (hs.owned (serveAll_available hb topic commands)).2

end

def seized : List Command :=
  [creation 0, ⟨⟨.stream, "B", .create⟩, { statement := "CREATE STREAM B AS SELECT * FROM A;" }, 1⟩]

theorem seized_run :
    (∀ earlier ∈ seized.inits,
        (serveAll (ofCommandTopic "c", .ofTopics ["c", "A", "B"]) earlier).2.topics.contains "B") ∧
      (serveAll (ofCommandTopic "c", .ofTopics ["c", "A", "B"]) seized).1.catalog.managed.contains
        "B" = true ∧
      (serve (serveAll (ofCommandTopic "c", .ofTopics ["c", "A", "B"]) seized)
        (termination 2)).2.topics.contains "B" = false := by
  decide +kernel

theorem seized_standing :
    Standing (ofCommandTopic "c", .ofTopics ["c", "A", "B"]) seized "B" :=
  fun earlier hp => seized_run.1 earlier ((List.mem_inits _ _).2 hp)

/-- The topic that was there before the cluster goes with it. -/
theorem old_topic_deleted_of_select :
    (∀ command ∈ seized ++ [termination 2],
        Statement.readId command.payload.statement = .ok command.id) ∧
      (seized ++ [termination 2]).Pairwise (fun c d => c.offset < d.offset) ∧
      (Broker.ofTopics ["c", "A", "B"]).available = true ∧
      Statement.read (termination 2).payload.statement = .ok (.terminateCluster []) ∧
      Standing (ofCommandTopic "c", .ofTopics ["c", "A", "B"]) seized "B" ∧
      (serveAll (ofCommandTopic "c", .ofTopics ["c", "A", "B"]) seized).1.catalog.managed.contains
        "B" = true ∧
      ¬ Founded (ofCommandTopic "c", .ofTopics ["c", "A", "B"]) seized "B" ∧
      (serve (serveAll (ofCommandTopic "c", .ofTopics ["c", "A", "B"]) seized)
        (termination 2)).2.topics.contains "B" = false :=
  ⟨by decide +kernel, by decide, rfl, read_termination 2, seized_standing, seized_run.2.1,
    seized_standing.not_founded, seized_run.2.2⟩

theorem termination_spares_iff_of_seized :
    (Broker.ofTopics ["c", "A", "B"]).available = true ∧
      ∃ earlier command, earlier ++ [command] <+: seized ∧ ∃ t ≠ "c",
        Standing (ofCommandTopic "c", .ofTopics ["c", "A", "B"]) earlier t ∧
          Selects (serveAll (ofCommandTopic "c", .ofTopics ["c", "A", "B"]) earlier) command t := by
  refine ⟨rfl, ?_⟩
  by_contra hn
  have howns := (termination_spares_iff rfl seized).1.2
    (fun earlier command hp t hne hold hs => hn ⟨earlier, command, hp, t, hne, hold, hs⟩)
    seized (List.prefix_refl _)
  exact seized_standing.not_founded (howns.managed "B" (by decide) seized_run.2.1)

end Engine

end StatementLog

import Mathlib.Data.List.Induction
import StatementLog.Proofs.Engine.Integrity
import StatementLog.Proofs.Engine.Touch

namespace StatementLog

open Std

namespace Catalog

variable {c d : Catalog} {b b' : Broker} {statement : Statement}

def Backed (c : Catalog) (b : Broker) : Prop :=
  ∀ name s, c.source? name = some s → b.topics.contains s.topic = true

def Shared (c : Catalog) (name : String) : Prop :=
  ∃ s other kept, c.source? name = some s ∧ other ≠ name ∧ c.source? other = some kept ∧
    kept.topic = s.topic

namespace Touch

theorem builtIn (h : Touch c b statement d b') {k : String} {s : Source}
    (hs : c.source? k = some s) (hn : s.createdAt = none) : d.source? k = some s := by
  have hkept {name : String} {t : Source} (ht : c.source? name = some t)
      (hc : t.createdAt.isSome) (hd : d.sources = c.sources.erase name) :
      d.source? k = some s := by
    rw [source?_erase hd, if_neg, hs]
    rintro rfl
    cases hs.symm.trans ht
    rw [hn] at hc
    cases hc
  have hadded {name : String} {t : Source} (ht : c.source? name = none)
      (hd : d.sources = c.sources.insert name t) : d.source? k = some s := by
    rw [source?_insert hd, if_neg, hs]
    rintro rfl
    cases hs.symm.trans ht
  cases h with
  | rest _ hd _ => rwa [source?, hd]
  | declare _ _ ht _ hd _ => exact hadded ht hd
  | make _ _ ht hd _ => exact hadded ht hd
  | drop _ ht hc hd _ => exact hkept ht hc hd
  | purge _ ht hc hd _ => exact hkept ht hc hd

theorem backed_iff (h : Touch c b statement d b') (hb : c.Backed b) :
    d.Backed b' ↔
      ∀ kind name ifExists, statement = .dropSource kind name ifExists true → ¬ c.Shared name := by
  cases h with
  | rest hs hd _ =>
    refine ⟨fun _ kind name ifExists he => ?_, fun _ name s h => hb name s ?_⟩
    · rintro ⟨s, -, -, h, -⟩
      cases (hs kind name ifExists true he).symm.trans h
    · rwa [source?, hd] at h
  | declare s _ _ ht hd _ =>
    refine ⟨by rintro - _ _ _ ⟨⟩, fun _ name t h => ?_⟩
    rw [source?_insert hd] at h
    split at h
    · cases h
      exact ht
    · exact hb name t h
  | @make _ made _ _ _ s hs _ hd _ =>
    refine ⟨by rintro - _ _ _ ⟨⟩, fun _ name t h => ?_⟩
    rw [Broker.addTopic, ExtTreeSet.contains_insert, Bool.or_eq_true]
    rw [source?_insert hd] at h
    split at h
    · cases h
      exact .inl (by simp [hs])
    · exact .inr (hb name t h)
  | drop s hs hc hd _ =>
    refine ⟨by rintro - _ _ _ ⟨⟩, fun _ name t h => hb name t ?_⟩
    rw [source?_erase hd] at h
    split at h
    · cases h
    · exact h
  | @purge _ dropped _ _ s hs hc hd _ =>
    constructor
    · rintro hbacked _ _ _ ⟨⟩ ⟨s', other, kept, hs', hne, hk, htopic⟩
      cases hs.symm.trans hs'
      have hkept : d.source? other = some kept := by rw [source?_erase hd, if_neg hne.symm, hk]
      have hgone := hbacked other kept hkept
      simp [htopic] at hgone
    · intro hshared name t h
      rw [source?_erase hd] at h
      split at h
      · cases h
      · next hne =>
        rw [ExtTreeSet.contains_erase, Bool.and_eq_true]
        refine ⟨?_, hb name t h⟩
        have htopic : t.topic ≠ s.topic := fun he =>
          hshared _ dropped _ rfl ⟨s, name, t, hs, fun he => hne he.symm, h, he⟩
        simpa using fun he => htopic he.symm

theorem managed (h : Touch c b statement d b') {k : String} {s : Source}
    (hs : c.source? k = some s) (hn : s.createdAt = none)
    (hm : c.managed.contains s.topic = true)
    (hd : ∀ kind name ifExists, statement = .dropSource kind name ifExists true →
      ¬ c.Shared name) : d.managed.contains s.topic = true := by
  cases h with
  | rest _ _ he => rwa [he]
  | declare _ _ _ _ _ he => rwa [he]
  | make _ _ _ _ he =>
    rw [he, ExtTreeSet.contains_insert, hm, Bool.or_true]
  | drop _ _ _ _ he => rwa [he]
  | @purge _ name _ _ t ht hc _ he =>
    rw [he, ExtTreeSet.contains_erase, hm, Bool.and_true]
    have hne : k ≠ name := by
      rintro rfl
      cases hs.symm.trans ht
      rw [hn] at hc
      cases hc
    have htopic : s.topic ≠ t.topic := fun he => hd _ name _ rfl ⟨t, k, s, ht, hne, hs, he⟩
    simpa using fun he => htopic he.symm

end Touch

/-- A cluster that has not been terminated has the topics of its sources, that of the built-in one
included, and it knows the command topic for its own. -/
def Secure (topic : String) (c : Catalog) (b : Broker) : Prop :=
  c.terminated = false →
    c.Backed b ∧ b.topics.contains topic = true ∧ c.managed.contains topic = true

def Rooted (topic : String) (c : Catalog) : Prop :=
  c.terminated = false → c.source? commandsStream = some (builtIn topic)

theorem ofCommandTopic_rooted (topic : String) : (ofCommandTopic topic).Rooted topic := by
  intro _
  simp [ofCommandTopic, source?, manage, addSource, builtIn]

theorem ofCommandTopic_secure {topic : String} (h : b.topics.contains topic = true) :
    (ofCommandTopic topic).Secure topic b := by
  refine fun _ => ⟨fun name s hs => ?_, h, ?_⟩
  · rw [source?_insert (c := {}) (k := commandsStream) (s := builtIn topic) rfl] at hs
    split at hs
    · cases hs
      exact h
    · simp [source?] at hs
  · simp [ofCommandTopic, manage]

end Catalog

namespace Engine

def serve (x : Engine × Broker) (command : Command) : Engine × Broker :=
  (x.1.apply x.2 command .live).2

def serveAll (x : Engine × Broker) (commands : List Command) : Engine × Broker :=
  commands.foldl serve x

/-- The command takes effect by dropping a source together with its topic, which another source has
as well. -/
def Strands (x : Engine × Broker) (command : Command) : Prop :=
  x.1.catalog.alreadyApplied command.id command.offset = false ∧
    (∃ effect, (x.1.apply x.2 command .live).1 = .ok effect) ∧
      ∃ kind name ifExists,
        Statement.read command.payload.statement = .ok (.dropSource kind name ifExists true) ∧
          x.1.catalog.Shared name

variable {x : Engine × Broker} {command : Command} {topic : String}

theorem serve_cases (x : Engine × Broker) (hb : x.2.available = true) (command : Command) :
    (serve x command = x ∧ ¬ Strands x command) ∨
      ((serve x command).1.catalog.terminated = true ∧ ¬ Strands x command ∧
        (serve x command).2.available = true) ∨
      ∃ statement d b', x.1.catalog.terminated = false ∧ d.terminated = false ∧
        x.1.catalog.Touch x.2 statement d b' ∧
        serve x command = (x.1.publish (d.recordApplied command), b') ∧
        (Strands x command ↔ ∃ kind name ifExists,
          statement = .dropSource kind name ifExists true ∧ x.1.catalog.Shared name) := by
  unfold serve
  rcases x.1.apply_cases x.2 command .live with
    ⟨ha, h⟩ | ⟨f, h⟩ | ⟨ha, statement, effect, d, b', hs, hg, hx, h⟩
  · refine .inl ⟨by rw [h], fun hst => ?_⟩
    rw [hst.1] at ha
    cases ha
  · refine .inl ⟨by rw [h], fun hst => ?_⟩
    obtain ⟨-, ⟨effect, he⟩, -⟩ := hst
    rw [h] at he
    cases he
  · rw [h]
    cases ht : statement.isTerminateCluster with
    | true =>
      cases statement with
      | terminateCluster topics =>
        cases hx
        refine .inr (.inl ⟨rfl, ?_, (Broker.release_available ..).trans hb⟩)
        rintro ⟨-, -, kind, name, ifExists, hread, -⟩
        cases hs.symm.trans hread
      | _ => cases ht
    | false =>
      have hc : x.1.catalog.terminated = false := by
        refine Bool.eq_false_iff.2 fun hc => ?_
        rw [hg hc] at ht
        cases ht
      have hd : d.terminated = false := ((Catalog.execute_change hx).terminated ht).trans hc
      rw [Catalog.execute_eq _ _ _ _ ht] at hx
      refine .inr (.inr ⟨statement, d, b', hc, hd, Catalog.planStatement_touch hb hx, rfl, ?_⟩)
      refine ⟨fun hst => ?_, fun ⟨kind, name, ifExists, he, hshared⟩ => ?_⟩
      · obtain ⟨-, -, kind, name, ifExists, hread, hshared⟩ := hst
        cases hs.symm.trans hread
        exact ⟨kind, name, ifExists, rfl, hshared⟩
      · exact ⟨ha, ⟨effect, by rw [h]⟩, kind, name, ifExists, he ▸ hs, hshared⟩

theorem serve_available (hb : x.2.available = true) : (serve x command).2.available = true := by
  rcases serve_cases x hb command with ⟨h, -⟩ | ⟨-, -, h⟩ | ⟨statement, d, b', -, -, ht, h, -⟩
  · rwa [h]
  · exact h
  · rw [h]
    cases ht <;> exact hb

theorem serve_rooted (hb : x.2.available = true) (hr : x.1.catalog.Rooted topic) :
    (serve x command).1.catalog.Rooted topic := by
  rcases serve_cases x hb command with ⟨h, -⟩ | ⟨h, -⟩ | ⟨statement, d, b', hc, -, ht, h, -⟩
  · rwa [h]
  · intro hf
    rw [hf] at h
    cases h
  · rw [h]
    exact fun _ => ht.builtIn (hr hc) rfl

theorem serve_secure_iff (hb : x.2.available = true) (hr : x.1.catalog.Rooted topic)
    (h : x.1.catalog.Secure topic x.2) :
    (serve x command).1.catalog.Secure topic (serve x command).2 ↔ ¬ Strands x command := by
  rcases serve_cases x hb command with ⟨he, hst⟩ | ⟨ht, hst, -⟩ |
    ⟨statement, d, b', hc, hd, ht, he, hst⟩
  · rw [he]
    exact ⟨fun _ => hst, fun _ => h⟩
  · refine ⟨fun _ => hst, fun _ hf => ?_⟩
    rw [hf] at ht
    cases ht
  · obtain ⟨hbacked, -, hmanaged⟩ := h hc
    have hroot := hr hc
    have hiff := ht.backed_iff hbacked
    have hd' : (x.1.publish (d.recordApplied command)).catalog.terminated = false := hd
    rw [he, hst]
    constructor
    · rintro hsecure ⟨kind, name, ifExists, hs, hshared⟩
      exact hiff.1 (hsecure hd').1 kind name ifExists hs hshared
    · intro hn _
      have hnone : ∀ kind name ifExists, statement = .dropSource kind name ifExists true →
          ¬ x.1.catalog.Shared name :=
        fun kind name ifExists hs hshared => hn ⟨kind, name, ifExists, hs, hshared⟩
      have hafter := hiff.2 hnone
      exact ⟨hafter, hafter _ _ (ht.builtIn hroot rfl), ht.managed hroot rfl hmanaged hnone⟩

theorem serveAll_concat (x : Engine × Broker) (commands : List Command) (command : Command) :
    serveAll x (commands ++ [command]) = serve (serveAll x commands) command := by
  rw [serveAll, List.foldl_append]
  rfl

theorem serveAll_rooted (hb : x.2.available = true) (hr : x.1.catalog.Rooted topic)
    (commands : List Command) :
    (serveAll x commands).2.available = true ∧ (serveAll x commands).1.catalog.Rooted topic := by
  induction commands using List.reverseRecOn with
  | nil => exact ⟨hb, hr⟩
  | append_singleton commands command ih =>
    rw [serveAll_concat]
    exact ⟨serve_available ih.1, serve_rooted ih.1 ih.2⟩

/-- However its commands alias their topics, a cluster that starts with its command topic has, until
it is terminated, the topics of all its sources, the command topic among them, which it goes on to
manage: this holds throughout exactly as long as no command drops a source together with a topic
that another source has as well. -/
theorem topics_kept_iff_unshared {b : Broker} (hb : b.available = true)
    (ht : b.topics.contains topic = true) (commands : List Command) :
    (∀ earlier, earlier <+: commands →
        (serveAll (ofCommandTopic topic, b) earlier).1.catalog.Secure topic
          (serveAll (ofCommandTopic topic, b) earlier).2) ↔
      ∀ earlier command, earlier ++ [command] <+: commands →
        ¬ Strands (serveAll (ofCommandTopic topic, b) earlier) command := by
  have hroot (earlier : List Command) :=
    serveAll_rooted (x := (ofCommandTopic topic, b)) hb (Catalog.ofCommandTopic_rooted topic) earlier
  constructor
  · intro h earlier command hp
    have hnow := h _ ((List.prefix_append ..).trans hp)
    have hnext := h _ hp
    rw [serveAll_concat] at hnext
    exact (serve_secure_iff (hroot earlier).1 (hroot earlier).2 hnow).1 hnext
  · intro h earlier
    induction earlier using List.reverseRecOn with
    | nil => exact fun _ => Catalog.ofCommandTopic_secure ht
    | append_singleton earlier command ih =>
      intro hp
      have hnow := ih ((List.prefix_append ..).trans hp)
      rw [serveAll_concat]
      exact (serve_secure_iff (hroot earlier).1 (hroot earlier).2 hnow).2 (h earlier command hp)

def aliased : List Command :=
  [⟨⟨.stream, "A", .create⟩, { statement := "CREATE STREAM A (X INT) WITH (KAFKA_TOPIC='c');" }, 0⟩,
    ⟨⟨.stream, "A", .drop⟩, { statement := "DROP STREAM A DELETE TOPIC;" }, 1⟩]

theorem aliased_run :
    (serveAll (ofCommandTopic "c", .ofTopics ["c"]) aliased).1.catalog.terminated = false ∧
      (serveAll (ofCommandTopic "c", .ofTopics ["c"]) aliased).1.catalog.source?
        Catalog.commandsStream = some (Catalog.builtIn "c") ∧
      (serveAll (ofCommandTopic "c", .ofTopics ["c"]) aliased).1.catalog.managed.contains "c" =
        false ∧
      (serveAll (ofCommandTopic "c", .ofTopics ["c"]) aliased).2.topics.contains "c" = false := by
  decide +kernel

/-- The stream over the command topic outlives it, in a cluster that no command has terminated. -/
theorem command_topic_lost_of_alias :
    (∀ command ∈ aliased, Statement.readId command.payload.statement = .ok command.id) ∧
      aliased.Pairwise (fun c d => c.offset < d.offset) ∧
      (Broker.ofTopics ["c"]).topics.contains "c" = true ∧
      (serveAll (ofCommandTopic "c", .ofTopics ["c"]) aliased).1.catalog.terminated = false ∧
      ¬ (serveAll (ofCommandTopic "c", .ofTopics ["c"]) aliased).1.catalog.Backed
        (serveAll (ofCommandTopic "c", .ofTopics ["c"]) aliased).2 ∧
      (serveAll (ofCommandTopic "c", .ofTopics ["c"]) aliased).2.topics.contains "c" = false ∧
      (serveAll (ofCommandTopic "c", .ofTopics ["c"]) aliased).1.catalog.managed.contains "c" =
        false := by
  obtain ⟨ht, hs, hm, hc⟩ := aliased_run
  refine ⟨by decide +kernel, by decide, by decide, ht, fun hb => ?_, hc, hm⟩
  have hkept : (serveAll (ofCommandTopic "c", .ofTopics ["c"]) aliased).2.topics.contains "c" =
      true := hb _ _ hs
  rw [hkept] at hc
  cases hc

theorem topics_kept_iff_unshared_of_alias :
    (Broker.ofTopics ["c"]).available = true ∧
      (Broker.ofTopics ["c"]).topics.contains "c" = true ∧
      ∃ earlier command, earlier ++ [command] <+: aliased ∧
        Strands (serveAll (ofCommandTopic "c", .ofTopics ["c"]) earlier) command := by
  have ht : (Broker.ofTopics ["c"]).topics.contains "c" = true := by decide
  refine ⟨rfl, ht, ?_⟩
  by_contra hn
  have hkept := (topics_kept_iff_unshared rfl ht aliased).2
    (fun earlier command hp hs => hn ⟨earlier, command, hp, hs⟩) aliased (List.prefix_refl _)
  obtain ⟨hterminated, -, -, hc⟩ := aliased_run
  rw [(hkept hterminated).2.1] at hc
  cases hc

end Engine

end StatementLog

import StatementLog.Proofs.Node.Station

namespace StatementLog

variable {μ κ ε : Type}

namespace Activity

def Admitted (a : Activity) : Prop :=
  ∃ stage, a.submission? = some stage ∧ ∀ request, stage ≠ .gate request

theorem IsCall.not_admitted {a : Activity} (h : a.IsCall) : ¬ a.Admitted := by
  rintro ⟨stage, hs, hg⟩
  cases a with
  | submitting stage' =>
    cases hs
    cases stage with
    | gate request => exact hg request rfl
    | _ => exact h.elim
  | executing stage' =>
    cases stage' with
    | following _ => exact h.elim
    | submitting stage' timeout =>
      cases hs
      cases stage with
      | gate request => exact hg request rfl
      | _ => exact h.elim
  | terminating stage' =>
    cases stage' with
    | checking text => cases hs
    | _ => exact h.elim
  | _ => cases hs

variable [CommandLog μ κ] [Executor ε] {s s' : Site μ κ ε} {a a' : Activity} {task : Nat}

theorem submission?_next {stage' : Submitting} (hc : a.Calls)
    (h : a.step task s = .next s' a') (hs : a'.submission? = some stage') :
    (∃ stage, a.submission? = some stage ∧ stage.step s = .next s' stage') ∨
      ∃ request, stage' = .gate request := by
  cases a with
  | submitting stage =>
    rcases Move.within_next h with ⟨stage'', hm, rfl⟩ | ⟨s', r, -, h⟩
    · cases hs
      exact .inl ⟨stage, rfl, hm⟩
    · cases h
  | executing stage =>
    rcases Move.within_next h with ⟨stage'', hm, rfl⟩ | ⟨s', r, -, h⟩
    · cases stage with
      | submitting stage timeout =>
        rcases Move.within_next hm with ⟨inner, hm', rfl⟩ | ⟨s', r, -, hm⟩
        · cases hs
          exact .inl ⟨stage, rfl, hm'⟩
        · cases r <;> cases hm
          cases hs
      | following stage =>
        rcases Move.within_next hm with ⟨inner, -, rfl⟩ | ⟨s', r, -, hm⟩
        · cases hs
        · cases hm
    · cases h
  | terminating stage =>
    rcases Move.within_next h with ⟨stage'', hm, rfl⟩ | ⟨s', r, -, h⟩
    · cases stage with
      | checking text =>
        rw [Terminating.step] at hm
        split at hm
        · cases hm
        · split at hm <;> cases hm
          cases hs
      | taking text =>
        rw [Terminating.step] at hm
        split at hm <;> cases hm
        cases hs
        exact .inr ⟨_, rfl⟩
      | submitting stage =>
        rcases Move.within_next hm with ⟨inner, hm', rfl⟩ | ⟨s', r, -, hm⟩
        · cases hs
          exact .inl ⟨stage, rfl, hm'⟩
        · cases r <;> cases hm <;> cases hs
      | registering slot =>
        cases hm
        cases hs
      | returning e => cases hm
      | joining handle stage =>
        rcases Move.within_next hm with ⟨inner, -, rfl⟩ | ⟨s', r, -, hm⟩
        · cases hs
        · cases r <;> cases hm
          cases hs
      | settling stage =>
        rcases Move.within_next hm with ⟨inner, -, rfl⟩ | ⟨s', r, -, hm⟩
        · cases hs
        · cases hm
          cases hs
      | leaving status stage =>
        rcases Move.within_next hm with ⟨inner, -, rfl⟩ | ⟨s', r, -, hm⟩
        · cases hs
        · cases hm
    · cases h
  | following stage | closing stage | retiring stage =>
    rcases Move.within_next h with ⟨stage'', -, rfl⟩ | ⟨s', r, -, h⟩
    · cases hs
    · cases h
  | probing => cases h
  | watching state =>
    rw [step] at h
    split at h
    · cases h
    · split at h <;> cases h
  | sleeping wake =>
    rw [step] at h
    split at h <;> cases h
  | _ => exact hc.elim

theorem admitted_next (hc : a.Calls) (hr : s.node.queue.ready = false) (ha : ¬ a.Admitted)
    (h : a.step task s = .next s' a') : ¬ a'.Admitted := by
  rintro ⟨stage', hs, hg⟩
  rcases submission?_next hc h hs with ⟨stage, hstage, hm⟩ | ⟨request, rfl⟩
  · by_cases hgate : ∃ request, stage = .gate request
    · obtain ⟨request, rfl⟩ := hgate
      rw [Submitting.step, if_neg (by simp [hr])] at hm
      cases hm
    · exact ha ⟨stage, hstage, fun request he => hgate ⟨request, he⟩⟩
  · exact hg request rfl

omit [CommandLog μ κ] [Executor ε] in
theorem appended?_eq_none (ha : ¬ a.Admitted) : a.appended? = none := by
  cases hs : a.submission? with
  | none => rw [appended?, hs, Option.bind_none]
  | some stage =>
    cases stage with
    | gate request => rw [appended?, hs]; rfl
    | _ => exact absurd ⟨_, hs, by simp⟩ ha

end Activity

namespace Caller

structure Outside (c : Caller) : Prop where
  offset : c.offset = none
  progress : ∀ a, c.progress = .busy a → ¬ a.Admitted

theorem outside_ofCall {call : Activity} (h : call.IsCall) : (ofCall call).Outside := by
  refine ⟨rfl, ?_⟩
  rintro _ ⟨⟩
  exact h.not_admitted

theorem Outside.goOn [CommandLog μ κ] [Executor ε] {c : Caller} {s s' : Site μ κ ε}
    {a a' : Activity} {task : Nat} (h : c.Outside) (ha : c.progress = .busy a) (hc : a.Calls)
    (hr : s.node.queue.ready = false) (hs : a.step task s = .next s' a') :
    (c.goOn a').Outside := by
  have hna := Activity.admitted_next hc hr (h.progress a ha) hs
  refine ⟨?_, ?_⟩
  · rw [Caller.goOn, h.offset, Activity.appended?_eq_none hna]
    rfl
  · rintro _ ⟨⟩
    exact hna

theorem Outside.answer {c : Caller} (h : c.Outside) (reply : Reply) : (c.answer reply).Outside :=
  ⟨h.offset, fun _ hn => nomatch hn⟩

end Caller

namespace Station

variable [CommandLog μ κ] [LawfulLog μ] [Executor ε] {x y : Station μ κ ε}

def Guarded (x : Station μ κ ε) : Prop :=
  (∃ limit, x.life.Cleared limit) ∨
    x.site.node.queue.ready = false ∧ ∀ c ∈ x.callers, c.Outside

theorem cleared_step {a b : Lifetime μ κ ε} {limit : Nat} (h : a.Cleared limit)
    (hs : b = a ∨ Lifetime.Step Site.Drift a b) : b.Cleared limit := by
  rcases hs with rfl | hs
  · exact h
  · cases hs with
    | act hy => exact h.advance hy
    | change hd => exact h.drift hd

variable [WritableLog μ]

theorem Guarded.step (h : x.Guarded) (hx : x.Sound) (hf : x.life.Fate) (hs : Step x y) :
    y.Guarded := by
  rcases h with ⟨limit, h⟩ | ⟨hr, hc⟩
  · exact .inl ⟨limit, cleared_step h (life_step hx hs)⟩
  · cases hs with
    | own hy hb =>
      obtain ⟨hcs, -, hl | ⟨hl, hs | ⟨⟨n, hp⟩, hs⟩⟩⟩ := advance?_cases hx.synchronous hy
      · refine .inr ⟨?_, hcs ▸ hc⟩
        rw [site, Lifetime.advance?_queue hl]
        exact hr
      · refine .inr ⟨Bool.eq_false_iff.2 fun hready => ?_, hcs ▸ hc⟩
        rw [(hs hb).ready hready] at hr
        cases hr
      · obtain ⟨limit, hcl⟩ := hf.cleared_of_completed hp
        exact .inl ⟨limit, cleared_step hcl (life_step hx (.own hy hb))⟩
    | @call call hcall =>
      refine .inr ⟨hr, ?_⟩
      intro c hmem
      rcases List.mem_append.1 hmem with hmem | hmem
      · exact hc c hmem
      · cases List.mem_singleton.1 hmem
        exact Caller.outside_ofCall hcall
    | serve i hy hb =>
      obtain ⟨c, c', hci, hcs, -, -, -, hs, a, ha, hc'⟩ := serve?_bears hx hy
      refine .inr ⟨Bool.eq_false_iff.2 fun hready => ?_, ?_⟩
      · rw [(hs hb).ready hready] at hr
        cases hr
      · have hout := hc c (List.mem_of_getElem? hci)
        have hcall := hx.calls c (List.mem_of_getElem? hci) a ha
        rw [hcs]
        intro d hd
        rcases List.mem_or_eq_of_mem_set hd with hd | rfl
        · exact hc d hd
        · rcases hc' with ⟨a', hm, rfl, -⟩ | ⟨reply, -, rfl⟩
          · exact hout.goOn ha hcall hr hm
          · exact hout.answer reply
    | abroad h =>
      refine .inr ⟨Bool.eq_false_iff.2 fun hready => ?_, hc⟩
      rw [h.ready hready] at hr
      cases hr

theorem Guarded.reaches (h : x.Guarded) (hx : x.Sound) (hf : x.life.Fate) (hr : Reaches x y) :
    y.Guarded := by
  induction hr with
  | refl => exact h
  | tail hr hs ih =>
    obtain ⟨hz, hl⟩ := life_reaches hx hr
    exact ih.step hz (hf.reaches hl) hs

omit [WritableLog μ] [Executor ε] in
theorem Fresh.guarded (h : x.Fresh) : x.Guarded := by
  refine .inr ⟨h.ready, ?_⟩
  rw [h.callers]
  exact fun c hc => nomatch hc

omit [WritableLog μ] [Executor ε] in
theorem Guarded.closed {limit : Nat} (h : x.Guarded) (hc : x.life.Condemned limit) :
    x.site.node.queue.ready = false ∧ ∀ c ∈ x.callers, c.Outside := by
  rcases h with ⟨l, h⟩ | h
  · obtain ⟨hcap, n, hn, d, hd, ht⟩ := hc
    have hf := h.unterminated limit hcap n hn d hd
    rw [ht] at hf
    cases hf
  · exact h

end Station

end StatementLog

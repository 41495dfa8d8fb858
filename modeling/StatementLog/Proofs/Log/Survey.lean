import StatementLog.Proofs.Log.Resumption

namespace StatementLog

/-- A disk with the clients of its handles, and what each handle has found in its file and left
there, one after the other. -/
structure Survey where
  disk : Disk
  clients : List FileClient := []
  seen : Nat → List (List UInt8) := fun _ => []

namespace Survey

inductive Event where
  | opening (path : String)
  | sibling (i : Nat)
  | call (i : Nat) (call : LogCall)
  | meddling (entries : Entries)

def act (x : Survey) : Event → Survey
  | .opening path =>
    match x.disk.open? path with
    | (.error _, disk) => { x with disk }
    | (.ok c, disk) =>
      { disk
        clients := x.clients ++ [c]
        seen := Function.update x.seen c.handle [disk.holds c] }
  | .sibling i =>
    match x.clients[i]? with
    | none => x
    | some c => { x with clients := x.clients ++ [Disk.sibling c] }
  | .call i call =>
    match x.clients[i]? with
    | none => x
    | some c =>
      let (_, disk, c') := call.perform x.disk c
      { disk
        clients := x.clients.set i c'
        seen := Function.update x.seen c.handle (x.seen c.handle ++ call.sights x.disk c) }
  | .meddling entries => { x with disk := { x.disk with entries } }

def run (x : Survey) (events : List Event) : Survey :=
  events.foldl act x

/-- Others, if it is they who act, take no complete line away. -/
def Event.Spares (before : Entries) : Event → Prop
  | opening _ | sibling _ | call _ _ => True
  | meddling entries => before.Spares entries

def Spared (x : Survey) : List Event → Prop
  | [] => True
  | e :: events => e.Spares x.disk.entries ∧ Spared (x.act e) events

def Attended (x : Survey) : Prop :=
  ∀ c ∈ x.clients, c.handle < x.disk.handles.length

inductive Turn (x : Survey) (e : Event) (y : Survey) : Prop where
  | rests (views : y.disk.views = x.disk.views) (seen : y.seen = x.seen)
    (spares : e.Spares x.disk.entries → x.disk.entries.Spares y.disk.entries)
  | opens {place : Place} {left : List UInt8}
    (views : y.disk.views = x.disk.views ++ [(place, (Extent.scan {} left).1)])
    (seen : y.seen = Function.update x.seen x.disk.views.length [left])
    (held : y.disk.entries.held place = left) (spares : x.disk.entries.Spares y.disk.entries)
  | looks {i : Nat} {place : Place} {known extent : Extent} {left : List UInt8}
    (view : x.disk.views[i]? = some (place, known))
    (views : y.disk.views = x.disk.views.set i (place, extent))
    (seen : y.seen =
      Function.update x.seen i (x.seen i ++ [x.disk.entries.held place, left]))
    (finds : known.Suits (x.disk.entries.held place) → extent = (Extent.scan {} left).1 ∧
      y.disk.entries.held place = left ∧ x.disk.entries.Spares y.disk.entries)

variable {x y : Survey} {e : Event}

theorem turn_opening (h : x.Attended) (path : String) :
    x.Turn (.opening path) (x.act (.opening path)) ∧ (x.act (.opening path)).Attended := by
  have hspares := x.disk.open?_spares path
  rw [act]
  split
  · next e disk hopen =>
    rw [hopen] at hspares
    have hviews := Disk.views_open?_error hopen
    refine ⟨.rests hviews rfl fun _ => hspares, fun c hc => ?_⟩
    rw [← disk.length_views, hviews, x.disk.length_views]
    exact h c hc
  · next c disk hopen =>
    rw [hopen] at hspares
    obtain ⟨hhandle, place, left, hviews, hholds, hheld⟩ := Disk.views_open? hopen
    refine ⟨.opens hviews ?_ hheld hspares, fun c' hc' => ?_⟩
    · rw [x.disk.length_views, ← hhandle, ← hholds]
    · rw [← disk.length_views, hviews, List.length_append, x.disk.length_views]
      rcases List.mem_append.1 hc' with hc' | hc'
      · exact Nat.lt_succ_of_lt (h c' hc')
      · rw [List.mem_singleton.1 hc', hhandle]
        exact Nat.lt_succ_self _

theorem turn_call (h : x.Attended) (i : Nat) (call : LogCall) :
    x.Turn (.call i call) (x.act (.call i call)) ∧ (x.act (.call i call)).Attended := by
  rw [act]
  split
  · exact ⟨.rests rfl rfl fun _ => Entries.spares_of_held fun _ => rfl, h⟩
  next c hi =>
  have hc : c.handle < x.disk.handles.length := h c (List.mem_of_getElem? hi)
  have hattended {d' : Disk} {c' : FileClient} (hviews : d'.views.length = x.disk.views.length)
      (hhandle : c'.handle = c.handle) :
      ∀ c₁ ∈ x.clients.set i c', c₁.handle < d'.handles.length := by
    rw [← d'.length_views, hviews, x.disk.length_views]
    intro c₁ hc₁
    rcases List.mem_or_eq_of_mem_set hc₁ with hc₁ | rfl
    · exact h c₁ hc₁
    · rwa [hhandle]
  have hviews {d' : Disk} (hd : d'.views = x.disk.views) (known : Extent) :
      (d'.knowing c known).views =
        x.disk.views.set c.handle ((x.disk.handleOf c).place, known) := by
    rw [Disk.views_knowing, hd, Disk.place_eq_of_views hc hd]
  cases LogCall.course hc call with
  | @aside reply d' c' performs views held handle sights =>
    have hself := performs (x.disk.handleOf c).extent
    rw [Disk.knowing_self hc] at hself
    have hsame : (d'.knowing c (x.disk.handleOf c).extent).views = x.disk.views := by
      rw [hviews views, ← Disk.views_knowing, Disk.knowing_self hc]
    rw [hself, sights, List.append_nil, Function.update_eq_self]
    exact ⟨.rests hsame rfl fun _ => Entries.spares_of_held held, hattended (by rw [hsame]) handle⟩
  | scan answer left scans performs spares =>
    obtain ⟨a, d', extent, hself, hd, hsuits⟩ := performs (x.disk.handleOf c).extent
    rw [Disk.knowing_self hc] at hself
    have hplace := Disk.place_eq_of_views hc hd
    have hd' : c.handle < d'.handles.length := by
      rwa [← d'.length_views, hd, x.disk.length_views]
    have hsights : call.sights x.disk c = [x.disk.holds c, d'.holds c] := by
      rw [LogCall.sights_of_ok scans (congrArg Prod.fst hself), hself, Disk.holds_knowing hd']
    rw [hself, hsights]
    refine ⟨.looks (Disk.getElem?_views hc) (hviews hd extent) rfl fun hknown => ?_,
      hattended (by rw [hviews hd, List.length_set]) rfl⟩
    obtain ⟨-, rfl, hextent⟩ := hsuits hknown
    have hheld : d'.holds c = d'.entries.held (x.disk.handleOf c).place := by
      rw [Disk.holds, hplace]
    exact ⟨hextent, hheld.symm, spares⟩

theorem turn_act (h : x.Attended) (e : Event) : x.Turn e (x.act e) ∧ (x.act e).Attended := by
  have hsame : x.disk.entries.Spares x.disk.entries := Entries.spares_of_held fun _ => rfl
  cases e with
  | opening path => exact turn_opening h path
  | call i call => exact turn_call h i call
  | sibling i =>
    rw [act]
    split
    · exact ⟨.rests rfl rfl fun _ => hsame, h⟩
    next c hi =>
    refine ⟨.rests rfl rfl fun _ => hsame, fun c' hc' => ?_⟩
    rcases List.mem_append.1 hc' with hc' | hc'
    · exact h c' hc'
    · rw [List.mem_singleton.1 hc']
      exact h c (List.mem_of_getElem? hi)
  | meddling entries => exact ⟨.rests rfl rfl id, h⟩

inductive Look (x y : Survey) (i : Nat) (place : Place) (known : Extent) : Prop where
  | rests (view : x.disk.views[i]? = some (place, known)) (seen : y.seen i = x.seen i)
  | opens {left : List UInt8} (knows : known = (Extent.scan {} left).1) (seen : y.seen i = [left])
    (held : y.disk.entries.held place = left)
  | looks {before : Extent} {left : List UInt8} (view : x.disk.views[i]? = some (place, before))
    (seen : y.seen i = x.seen i ++ [x.disk.entries.held place, left])
    (finds : before.Suits (x.disk.entries.held place) →
      known = (Extent.scan {} left).1 ∧ y.disk.entries.held place = left)

variable {i : Nat} {place : Place} {known : Extent}

theorem Turn.look (h : x.Turn e y) (hi : y.disk.views[i]? = some (place, known)) :
    Look x y i place known := by
  cases h with
  | rests views seen _ =>
    rw [views] at hi
    exact .rests hi (by rw [seen])
  | opens views seen held _ =>
    rw [views] at hi
    by_cases he : i = x.disk.views.length
    · subst he
      rw [List.getElem?_concat_length] at hi
      cases hi
      exact .opens rfl (by rw [seen, Function.update_self]) held
    · have hlt := (List.getElem?_eq_some_iff.1 hi).1
      rw [List.length_append, List.length_singleton] at hlt
      rw [List.getElem?_append_left (by omega)] at hi
      exact .rests hi (by rw [seen, Function.update_of_ne he])
  | @looks j _ _ _ _ view views seen finds =>
    rw [views] at hi
    by_cases he : i = j
    · subst he
      rw [List.getElem?_set_self (List.getElem?_eq_some_iff.1 view).1] at hi
      cases hi
      refine .looks view (by rw [seen, Function.update_self]) fun hknown => ?_
      obtain ⟨hextent, hheld, -⟩ := finds hknown
      exact ⟨hextent, hheld⟩
    · rw [List.getElem?_set_ne (Ne.symm he)] at hi
      exact .rests hi (by rw [seen, Function.update_of_ne he])

theorem Turn.spares (h : x.Turn e y) (he : e.Spares x.disk.entries)
    (hknown : ∀ {i : Nat} {place : Place} {known : Extent},
      x.disk.views[i]? = some (place, known) → known.Suits (x.disk.entries.held place)) :
    x.disk.entries.Spares y.disk.entries := by
  cases h with
  | rests _ _ spares => exact spares he
  | opens _ _ _ spares => exact spares
  | looks view _ _ finds =>
    obtain ⟨-, -, hspares⟩ := finds (hknown view)
    exact hspares

structure Sound (x : Survey) : Prop where
  attended : x.Attended
  knows {i : Nat} {place : Place} {known : Extent} : x.disk.views[i]? = some (place, known) →
    (x.seen i).IsChain Extent.Follows → known = .along (x.seen i)

theorem Sound.suits (h : x.Sound) (hi : x.disk.views[i]? = some (place, known))
    {content : List UInt8} (hchain : (x.seen i ++ [content]).IsChain Extent.Follows) :
    known.Suits content := by
  rw [h.knows hi hchain.left_of_append]
  exact Extent.along_suits hchain

theorem Sound.knows_turn (h : x.Sound) (ht : x.Turn e y)
    (hi : y.disk.views[i]? = some (place, known))
    (hchain : (y.seen i).IsChain Extent.Follows) : known = .along (y.seen i) := by
  cases ht.look hi with
  | rests view seen =>
    rw [seen] at hchain ⊢
    exact h.knows view hchain
  | opens knows seen _ =>
    rw [seen, knows]
    rfl
  | looks view seen finds =>
    rw [seen, List.append_cons] at hchain ⊢
    -- what the handle knew suits what it has found, for what it has found follows upon the rest
    obtain ⟨hknown, -⟩ := finds (h.suits view hchain.left_of_append)
    rw [hknown, Extent.along_concat, Extent.along_suits hchain]

theorem Sound.act (h : x.Sound) (e : Event) : (x.act e).Sound := by
  obtain ⟨ht, hattended⟩ := turn_act h.attended e
  exact ⟨hattended, h.knows_turn ht⟩

theorem Sound.run (h : x.Sound) (events : List Event) : (x.run events).Sound := by
  induction events generalizing x with
  | nil => exact h
  | cons e events ih => exact ih (h.act e)

def Persists (seen : List (List UInt8)) (content : List UInt8) : Prop :=
  ∃ past last, seen = past ++ [last] ∧ seen.IsChain Extent.Follows ∧ Lines.front last <+: content

variable {seen : List (List UInt8)} {content left : List UInt8}

theorem persists_one (left : List UInt8) : Persists [left] left :=
  ⟨[], left, rfl, .singleton left, List.take_prefix ..⟩

theorem Persists.follows (h : Persists seen content) :
    (seen ++ [content]).IsChain Extent.Follows := by
  obtain ⟨past, last, rfl, hchain, hfront⟩ := h
  exact hchain.append_overlap (List.isChain_pair.2 (Extent.follows_of_front hfront))
    (List.cons_ne_nil _ _)

theorem Persists.found_left (h : Persists seen content) (hfront : Lines.front content <+: left) :
    Persists (seen ++ [content, left]) left := by
  refine ⟨seen ++ [content], left, by simp, ?_, List.take_prefix ..⟩
  rw [List.append_cons]
  exact h.follows.append_overlap (List.isChain_pair.2 (Extent.follows_of_front hfront))
    (List.cons_ne_nil _ _)

theorem Persists.spares {before after : Entries} (h : Persists seen (before.held place))
    (hs : before.Spares after) : Persists seen (after.held place) := by
  obtain ⟨past, last, hseen, hchain, hfront⟩ := h
  exact ⟨past, last, hseen, hchain, hs.prefix hfront⟩

def Kept (x : Survey) : Prop :=
  ∀ ⦃i : Nat⦄ ⦃place : Place⦄ ⦃known : Extent⦄, x.disk.views[i]? = some (place, known) →
    Persists (x.seen i) (x.disk.entries.held place)

theorem Kept.turn (h : x.Kept) (hsound : x.Sound) (ht : x.Turn e y)
    (he : e.Spares x.disk.entries) : y.Kept := by
  have hspares : x.disk.entries.Spares y.disk.entries :=
    ht.spares he fun hi => hsound.suits hi (h hi).follows
  intro i place known hi
  cases ht.look hi with
  | rests view seen =>
    rw [seen]
    exact (h view).spares hspares
  | opens _ seen held =>
    rw [seen, held]
    exact persists_one _
  | looks view seen finds =>
    obtain ⟨-, hleft⟩ := finds (hsound.suits view (h view).follows)
    rw [seen, hleft]
    exact (h view).found_left (hleft ▸ hspares place)

theorem Kept.run (h : x.Kept) (hsound : x.Sound) {events : List Event} (hs : x.Spared events) :
    (x.run events).Kept := by
  induction events generalizing x with
  | nil => exact h
  | cons e events ih =>
    obtain ⟨ht, -⟩ := turn_act hsound.attended e
    exact ih (h.turn hsound ht hs.1) (hsound.act e) hs.2

/-- A scan that goes on from what an earlier one has come to finds what it would have found from the
beginning, if the lines that were complete are there still or the file is shorter than they were. So
it does along any chain of such contents. A handle that has found its file so each time, whatever
others do to it in between, makes no call that shows what it has seen: an append and the end of the
log tell how many records are in the complete lines, or fail with any knowledge. And so each handle
finds its file, unless others take complete lines away. -/
theorem resumed_scan_is_full :
    (∀ before after : List UInt8,
      after.take (Extent.scan {} before).1.octets = before.take (Extent.scan {} before).1.octets ∨
          after.length < (Extent.scan {} before).1.octets →
        (Extent.scan {} before).1.scan after = Extent.scan {} after) ∧
    (∀ (contents : List (List UInt8)) (content : List UInt8),
      (contents ++ [content]).IsChain Extent.Follows →
        (Extent.along contents).scan content = Extent.scan {} content) ∧
    ∀ (entries : Entries) (events : List Event) (x : Survey),
      x = run { disk := { entries } } events →
        ∀ c ∈ x.clients,
          ((x.seen c.handle ++ [x.disk.holds c]).IsChain Extent.Follows → x.disk.Resumes c) ∧
          (Spared { disk := { entries } } events →
            (x.seen c.handle ++ [x.disk.holds c]).IsChain Extent.Follows) := by
  refine ⟨fun before after h => Extent.Follows.suits h, fun contents content h =>
    Extent.along_suits h, ?_⟩
  rintro entries events x rfl c hc
  have hstart : Sound { disk := { entries } } :=
    ⟨fun c hc => absurd hc List.not_mem_nil, fun hi => by cases hi⟩
  have hkept : Kept { disk := { entries } } := fun _ _ _ hi => by cases hi
  have hsound := hstart.run events
  have hhandle := hsound.attended c hc
  have hview := Disk.getElem?_views hhandle
  exact ⟨fun hchain => Disk.resumes_of_suits hhandle (hsound.suits hview hchain),
    fun hspared => (hkept.run hstart hspared hview).follows⟩

def extended : List UInt8 :=
  Lines.written [Disk.sample] ++ (32 :: Lines.lineFeed :: Lines.written [Disk.sample] ++
    [Lines.lineFeed, 123])

def started : Survey :=
  run { disk := {} } [.opening "log", .call 0 (.append Disk.sample)]

def grown : List Event :=
  [.opening "log", .call 0 (.append Disk.sample),
    .meddling (started.disk.entries.insert ["log", "."] (.file extended)), .call 0 .endPosition]

theorem grown_spared : Spared { disk := {} } grown :=
  ⟨trivial, trivial, Entries.spares_insert (fun _ => rfl) (by decide +kernel), trivial, trivial⟩

def cutShort : Survey :=
  run { disk := {} } (grown ++
    [.meddling (started.disk.entries.insert ["log", "."] (.file (extended.take 200)))])

theorem resumed_scan_is_full_cutShort :
    Spared { disk := {} } grown ∧ ∃ c ∈ cutShort.clients,
      (cutShort.seen c.handle ++ [cutShort.disk.holds c]).IsChain Extent.Follows ∧
      (cutShort.disk.handleOf c).extent = ⟨281, 2⟩ ∧
      (cutShort.disk.handleOf c).extent.scan (cutShort.disk.holds c) = (⟨141, 1⟩, 59) ∧
      (LogCall.endPosition.perform cutShort.disk c).1 = .ok (.ending 1) ∧
      ((LogCall.append Disk.sample).perform cutShort.disk c).1 = .ok (.appended 1) ∧
      (Extent.scan {} extended).1.scan (extended.take 200) = (⟨141, 1⟩, 59) := by
  obtain ⟨hscan, -, hruns⟩ := resumed_scan_is_full
  let c : FileClient := { handle := 0 }
  have hgrown : c ∈ (run { disk := {} } grown).clients ∧
      (run { disk := {} } grown).seen 0 =
        [[], [], Lines.written [Disk.sample], extended] ++ [extended] := by
    decide +kernel
  have hcut : c ∈ cutShort.clients ∧ cutShort.seen 0 = (run { disk := {} } grown).seen 0 ∧
      cutShort.disk.holds c = extended.take 200 ∧
      (cutShort.disk.handleOf c).extent = ⟨281, 2⟩ ∧
      (LogCall.endPosition.perform (cutShort.disk.knowing c {}) c).1 = .ok (.ending 1) ∧
      ((LogCall.append Disk.sample).perform (cutShort.disk.knowing c {}) c).1 =
        .ok (.appended 1) := by
    decide +kernel
  have hfull : Extent.scan {} (extended.take 200) = (⟨141, 1⟩, 59) := by decide +kernel
  obtain ⟨hc, hseen, hholds, hknown, hend, happend⟩ := hcut
  have htake : Extent.Follows extended (extended.take 200) := Extent.follows_take extended 200
  -- before the cut no one has taken a line away, and what is left after it follows upon all that
  have hchain : (cutShort.seen 0 ++ [cutShort.disk.holds c]).IsChain Extent.Follows := by
    have hpast : ((run { disk := {} } grown).seen 0).IsChain Extent.Follows :=
      ((hruns .bare grown _ rfl c hgrown.1).2 grown_spared).left_of_append
    rw [hgrown.2] at hpast
    rw [hseen, hgrown.2, hholds]
    exact hpast.append_overlap (List.isChain_pair.2 htake) (List.cons_ne_nil _ _)
  have hresumes : cutShort.disk.Resumes c := (hruns .bare _ cutShort rfl c hc).1 hchain
  have hfresh := hresumes.calls [] (.singleton _)
  refine ⟨grown_spared, c, hc, hchain, hknown, ?_, ?_, ?_, ?_⟩
  · rw [hresumes.scan, hholds, hfull]
  · exact (hfresh .endPosition).1.symm.trans hend
  · exact (hfresh (.append Disk.sample)).1.symm.trans happend
  · rw [hscan extended _ htake, hfull]

end Survey

end StatementLog

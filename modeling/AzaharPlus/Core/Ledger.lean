import AzaharPlus.Core.Timing

/-!
# What the history of a timing says about its queues

Events without their order: a `Ticket` is the number and the request of an event, and the
queues of the timers are bags of tickets.  `Ledger` relates the bags to the history, and
there is one lemma for each thing that happens to them: a ticket is added, tickets are
cancelled, the waiting ones are moved, and one fires.
-/

namespace AzaharPlus.Core

/-- The number of a request and the request. -/
abbrev Ticket := Nat × Request

/-- The ticket of an event. -/
def Event.ticket (e : Event) : Ticket := (e.id, e.request)

namespace History

variable {n : Nat}

/-- The numbers of the requests whose events fired. -/
def firedIds (h : History n) : List Nat := h.firings.map (·.event.id)

/-- The history has a ticket as one on timer `i` that did not fire, and that was cancelled at
most while it waited. -/
def Holds (h : History n) (i : Fin n) (waiting : Bool) (t : Ticket) : Prop :=
  (∃ f, h.fates[t.1]? = some f ∧ f.timer = i ∧ f.request = t.2 ∧ f.waiting = waiting ∧
    f.cancelled = f.missed) ∧ t.1 ∉ h.firedIds

/-- A firing is one of a request on the same timer, not before its time, and its lateness is
the one that is passed to the callback. -/
structure FiredOk (h : History n) (g : Firing n) : Prop where
  requested : ∃ f, h.fates[g.event.id]? = some f ∧ f.timer = g.timer ∧
    f.request = g.event.request ∧ (g.missed = true → f.missed = true)
  due : g.event.time ≤ g.executedTicks
  lateness : g.lateness = toInt32 (g.executedTicks - g.event.time)
  cancelled : g.cancelled = g.missed

end History

/-- The queues `q` and the waiting queues `w` of the timers against the history. -/
structure Ledger {n : Nat} (q w : Fin n → List Ticket) (h : History n) : Prop where
  queued : ∀ i, ∀ t ∈ q i, h.Holds i false t
  waiting : ∀ i, ∀ t ∈ w i, h.Holds i true t
  queued_nodup : ∀ i, ((q i).map Prod.fst).Nodup
  waiting_nodup : ∀ i, ((w i).map Prod.fst).Nodup
  accounted : ∀ id f, h.fates[id]? = some f → f.cancelled = false → id ∉ h.firedIds →
    ∃ r, (id, r) ∈ (if f.waiting then w else q) f.timer
  fired_nodup : h.firedIds.Nodup
  fired : ∀ g ∈ h.firings, h.FiredOk g

namespace Ledger

variable {n : Nat} {q w : Fin n → List Ticket} {h : History n}

theorem nil : Ledger (fun _ : Fin n => []) (fun _ => []) ⟨[], []⟩ where
  queued := by simp
  waiting := by simp
  queued_nodup := by simp
  waiting_nodup := by simp
  accounted := by simp
  fired_nodup := by simp [History.firedIds]
  fired := by simp

/-- The order in the queues does not matter. -/
theorem perm {q' : Fin n → List Ticket} (hl : Ledger q w h) (hq : ∀ i, (q' i).Perm (q i)) :
    Ledger q' w h where
  queued := fun i t ht => hl.queued i t ((hq i).mem_iff.1 ht)
  waiting := hl.waiting
  queued_nodup := fun i => (((hq i).map Prod.fst).nodup_iff).2 (hl.queued_nodup i)
  waiting_nodup := hl.waiting_nodup
  accounted := by
    intro id f hf hc hid
    obtain ⟨r, hr⟩ := hl.accounted id f hf hc hid
    refine ⟨r, ?_⟩
    by_cases hw : f.waiting
    · simpa [hw] using hr
    · simp only [hw, Bool.false_eq_true, if_false] at hr ⊢
      exact (hq f.timer).mem_iff.2 hr
  fired_nodup := hl.fired_nodup
  fired := hl.fired

/-! ## A new request -/

theorem Holds.lt {i : Fin n} {b : Bool} {t : Ticket} (ht : h.Holds i b t) :
    t.1 < h.fates.length := by
  obtain ⟨⟨f, hf, -⟩, -⟩ := ht
  exact (List.getElem?_eq_some_iff.1 hf).1

theorem firedIds_lt (hl : Ledger q w h) {id : Nat} (hid : id ∈ h.firedIds) :
    id < h.fates.length := by
  obtain ⟨g, hg, rfl⟩ := List.mem_map.1 hid
  obtain ⟨f, hf, -⟩ := (hl.fired g hg).requested
  exact (List.getElem?_eq_some_iff.1 hf).1

theorem Holds.schedule {i j : Fin n} {b b' : Bool} {t : Ticket} {r : Request} (ht : h.Holds i b t) :
    (h.schedule j r b').Holds i b t := by
  obtain ⟨⟨f, hf, hrest⟩, hid⟩ := ht
  refine ⟨⟨f, ?_, hrest⟩, hid⟩
  rw [History.schedule, List.getElem?_append_left (List.getElem?_eq_some_iff.1 hf).1, hf]

/-- The ticket of a new request is on its timer. -/
theorem holds_new (hl : Ledger q w h) (i : Fin n) (r : Request) (b : Bool) :
    (h.schedule i r b).Holds i b (h.fates.length, r) := by
  refine ⟨⟨⟨i, r, b, false, false⟩, ?_, rfl, rfl, rfl, rfl⟩, fun hid => ?_⟩
  · simp [History.schedule]
  · exact absurd (hl.firedIds_lt hid) (lt_irrefl _)

theorem FiredOk.schedule {g : Firing n} {i : Fin n} {r : Request} {b : Bool} (hg : h.FiredOk g) :
    (h.schedule i r b).FiredOk g := by
  obtain ⟨⟨f, hf, hrest⟩, hdue, hlate, hc⟩ := hg
  refine ⟨⟨f, ?_, hrest⟩, hdue, hlate, hc⟩
  rw [History.schedule, List.getElem?_append_left (List.getElem?_eq_some_iff.1 hf).1, hf]

/-- A list of tickets with one more, whose number is new. -/
theorem nodup_new {l : List Ticket} {i : Fin n} {b : Bool} (hl : (l.map Prod.fst).Nodup)
    (hh : ∀ t ∈ l, h.Holds i b t) (r : Request) :
    ((l ++ [(h.fates.length, r)]).map Prod.fst).Nodup := by
  rw [List.map_append, List.nodup_append]
  refine ⟨hl, by simp, fun a ha b hb => ?_⟩
  obtain ⟨t, ht, rfl⟩ := List.mem_map.1 ha
  have := Holds.lt (hh t ht)
  simp only [List.map_cons, List.map_nil, List.mem_singleton] at hb
  omega

/-- A fate after a new request is an old one or the new one. -/
theorem fates_schedule {i : Fin n} {r : Request} {b : Bool} {id : Nat} {f : Fate n}
    (hf : (h.schedule i r b).fates[id]? = some f) :
    h.fates[id]? = some f ∨ id = h.fates.length ∧ f = ⟨i, r, b, false, false⟩ := by
  rw [History.schedule, List.getElem?_append] at hf
  split at hf
  · exact .inl hf
  · next hge =>
      obtain ⟨hlt, he⟩ := List.getElem?_eq_some_iff.1 hf
      simp only [List.length_singleton] at hlt
      refine .inr ⟨by omega, ?_⟩
      simpa using he.symm

/-- A request whose event goes to the heap. -/
theorem scheduleQueued (hl : Ledger q w h) (i : Fin n) (r : Request) :
    Ledger (Function.update q i (q i ++ [(h.fates.length, r)])) w (h.schedule i r false) where
  queued := by
    intro j t ht
    by_cases hj : j = i
    · subst hj
      rw [Function.update_self, List.mem_append, List.mem_singleton] at ht
      rcases ht with ht | rfl
      · exact Holds.schedule (hl.queued j t ht)
      · exact hl.holds_new j r false
    · rw [Function.update_of_ne hj] at ht
      exact Holds.schedule (hl.queued j t ht)
  waiting := fun j t ht => Holds.schedule (hl.waiting j t ht)
  queued_nodup := by
    intro j
    by_cases hj : j = i
    · subst hj
      rw [Function.update_self]
      exact nodup_new (hl.queued_nodup j) (hl.queued j) r
    · rw [Function.update_of_ne hj]
      exact hl.queued_nodup j
  waiting_nodup := hl.waiting_nodup
  accounted := by
    intro id f hf hc hid
    rcases fates_schedule hf with hf | ⟨rfl, rfl⟩
    · obtain ⟨r', hr'⟩ := hl.accounted id f hf hc hid
      refine ⟨r', ?_⟩
      cases hw : f.waiting <;> simp only [hw, Bool.false_eq_true, if_false, if_true] at hr' ⊢
      · by_cases hj : f.timer = i
        · rw [← hj, Function.update_self]
          exact List.mem_append_left _ hr'
        · rwa [Function.update_of_ne hj]
      · exact hr'
    · exact ⟨r, by simp⟩
  fired_nodup := hl.fired_nodup
  fired := fun g hg => FiredOk.schedule (hl.fired g hg)

/-- A request whose event goes to the waiting queue. -/
theorem scheduleWaiting (hl : Ledger q w h) (i : Fin n) (r : Request) :
    Ledger q (Function.update w i (w i ++ [(h.fates.length, r)])) (h.schedule i r true) where
  queued := fun j t ht => Holds.schedule (hl.queued j t ht)
  waiting := by
    intro j t ht
    by_cases hj : j = i
    · subst hj
      rw [Function.update_self, List.mem_append, List.mem_singleton] at ht
      rcases ht with ht | rfl
      · exact Holds.schedule (hl.waiting j t ht)
      · exact hl.holds_new j r true
    · rw [Function.update_of_ne hj] at ht
      exact Holds.schedule (hl.waiting j t ht)
  queued_nodup := hl.queued_nodup
  waiting_nodup := by
    intro j
    by_cases hj : j = i
    · subst hj
      rw [Function.update_self]
      exact nodup_new (hl.waiting_nodup j) (hl.waiting j) r
    · rw [Function.update_of_ne hj]
      exact hl.waiting_nodup j
  accounted := by
    intro id f hf hc hid
    rcases fates_schedule hf with hf | ⟨rfl, rfl⟩
    · obtain ⟨r', hr'⟩ := hl.accounted id f hf hc hid
      refine ⟨r', ?_⟩
      cases hw : f.waiting <;> simp only [hw, Bool.false_eq_true, if_false, if_true] at hr' ⊢
      · exact hr'
      · by_cases hj : f.timer = i
        · rw [← hj, Function.update_self]
          exact List.mem_append_left _ hr'
        · rwa [Function.update_of_ne hj]
    · exact ⟨r, by simp⟩
  fired_nodup := hl.fired_nodup
  fired := fun g hg => FiredOk.schedule (hl.fired g hg)

/-! ## Cancelled tickets -/

theorem fates_cancel {p : Request → Bool} {id : Nat} {f' : Fate n}
    (hf : (h.cancel p).fates[id]? = some f') : ∃ f, h.fates[id]? = some f ∧ f.cancel p = f' := by
  rw [History.cancel, List.getElem?_map] at hf
  exact Option.map_eq_some_iff.1 hf

theorem cancel_request (p : Request → Bool) (f : Fate n) : (f.cancel p).request = f.request := by
  unfold Fate.cancel
  split <;> rfl

theorem cancel_timer (p : Request → Bool) (f : Fate n) : (f.cancel p).timer = f.timer := by
  unfold Fate.cancel
  split <;> rfl

theorem cancel_waiting (p : Request → Bool) (f : Fate n) : (f.cancel p).waiting = f.waiting := by
  unfold Fate.cancel
  split <;> rfl

theorem cancel_of_not {p : Request → Bool} {f : Fate n} (hp : ¬ p f.request) : f.cancel p = f :=
  if_neg hp

/-- An Unschedule or Remove takes the tickets it matches out of the heaps, and leaves the
waiting ones. -/
theorem cancel (hl : Ledger q w h) (p : Request → Bool) :
    Ledger (fun i => (q i).filter fun t => !p t.2) w (h.cancel p) where
  queued := by
    intro i t ht
    rw [List.mem_filter] at ht
    obtain ⟨⟨f, hf, htimer, hreq, hwait, hc⟩, hid⟩ := hl.queued i t ht.1
    have hp : ¬ p f.request := by
      rw [hreq]
      simpa using ht.2
    refine ⟨⟨f, ?_, htimer, hreq, hwait, hc⟩, hid⟩
    rw [History.cancel, List.getElem?_map, hf, Option.map_some, cancel_of_not hp]
  waiting := by
    intro i t ht
    obtain ⟨⟨f, hf, htimer, hreq, hwait, hc⟩, hid⟩ := hl.waiting i t ht
    refine ⟨⟨f.cancel p, ?_, ?_, ?_, ?_, ?_⟩, hid⟩
    · rw [History.cancel, List.getElem?_map, hf, Option.map_some]
    · rw [cancel_timer, htimer]
    · rw [cancel_request, hreq]
    · rw [cancel_waiting, hwait]
    · unfold Fate.cancel
      split
      · simp [hwait]
      · exact hc
  queued_nodup := fun i => ((List.filter_sublist).map Prod.fst).nodup (hl.queued_nodup i)
  waiting_nodup := hl.waiting_nodup
  accounted := by
    intro id f' hf' hc hid
    obtain ⟨f, hf, rfl⟩ := fates_cancel hf'
    by_cases hp : p f.request
    · simp [Fate.cancel, hp] at hc
    rw [cancel_of_not hp] at hc ⊢
    obtain ⟨r, hr⟩ := hl.accounted id f hf hc hid
    refine ⟨r, ?_⟩
    cases hw : f.waiting <;> simp only [hw, Bool.false_eq_true, if_false, if_true] at hr ⊢
    · obtain ⟨⟨f₁, hf₁, -, hreq, -⟩, -⟩ := hl.queued _ _ hr
      obtain rfl := Option.some.inj (hf.symm.trans hf₁)
      rw [List.mem_filter]
      refine ⟨hr, ?_⟩
      simp only at hreq
      rw [← hreq]
      simpa using hp
    · exact hr
  fired_nodup := hl.fired_nodup
  fired := by
    intro g hg
    obtain ⟨⟨f, hf, htimer, hreq, hm⟩, hdue, hlate, hc⟩ := hl.fired g hg
    refine ⟨⟨f.cancel p, ?_, ?_, ?_, fun hg => ?_⟩, hdue, hlate, hc⟩
    · rw [History.cancel, List.getElem?_map, hf, Option.map_some]
    · rw [cancel_timer, htimer]
    · rw [cancel_request, hreq]
    · unfold Fate.cancel
      split
      · simp [hm hg]
      · exact hm hg

/-! ## Moved tickets -/

theorem move_of_ne {i : Fin n} {f : Fate n} (hf : f.timer ≠ i) : f.move i = f := if_neg hf

theorem move_of_eq {i : Fin n} {f : Fate n} (hf : f.timer = i) :
    f.move i = { f with waiting := false } := if_pos hf

theorem getElem?_move {i : Fin n} {id : Nat} {f : Fate n} (hf : h.fates[id]? = some f) :
    (h.move i).fates[id]? = some (f.move i) := by
  rw [History.move, List.getElem?_map, hf, Option.map_some]

/-- Moving the waiting tickets of timer `i` changes nothing for the other timers. -/
theorem Holds.move_of_ne {i j : Fin n} {b : Bool} {t : Ticket} (ht : h.Holds j b t) (hj : j ≠ i) :
    (h.move i).Holds j b t := by
  obtain ⟨⟨f, hf, htimer, hrest⟩, hid⟩ := ht
  refine ⟨⟨f, ?_, htimer, hrest⟩, hid⟩
  rw [getElem?_move hf, Ledger.move_of_ne (by rwa [htimer])]

/-- Moving the waiting tickets of timer `i` makes them tickets of its heap. -/
theorem Holds.move {i : Fin n} {b : Bool} {t : Ticket} (ht : h.Holds i b t) :
    (h.move i).Holds i false t := by
  obtain ⟨⟨f, hf, htimer, hreq, -, hc⟩, hid⟩ := ht
  refine ⟨⟨{ f with waiting := false }, ?_, htimer, hreq, rfl, hc⟩, hid⟩
  rw [getElem?_move hf, move_of_eq htimer]

/-- A ticket is on one timer and in one queue. -/
theorem Holds.unique {i j : Fin n} {b b' : Bool} {t t' : Ticket} (ht : h.Holds i b t)
    (ht' : h.Holds j b' t') (he : t.1 = t'.1) : i = j ∧ b = b' := by
  obtain ⟨⟨f, hf, htimer, -, hwait, -⟩, -⟩ := ht
  obtain ⟨⟨f', hf', htimer', -, hwait', -⟩, -⟩ := ht'
  rw [he] at hf
  obtain rfl := Option.some.inj (hf.symm.trans hf')
  exact ⟨htimer.symm.trans htimer', hwait.symm.trans hwait'⟩

theorem move (hl : Ledger q w h) (i : Fin n) :
    Ledger (Function.update q i (q i ++ w i)) (Function.update w i []) (h.move i) where
  queued := by
    intro j t ht
    by_cases hj : j = i
    · subst hj
      rw [Function.update_self, List.mem_append] at ht
      rcases ht with ht | ht
      · exact Holds.move (hl.queued j t ht)
      · exact Holds.move (hl.waiting j t ht)
    · rw [Function.update_of_ne hj] at ht
      exact Holds.move_of_ne (hl.queued j t ht) hj
  waiting := by
    intro j t ht
    by_cases hj : j = i
    · subst hj
      rw [Function.update_self] at ht
      exact absurd ht (by simp)
    · rw [Function.update_of_ne hj] at ht
      exact Holds.move_of_ne (hl.waiting j t ht) hj
  queued_nodup := by
    intro j
    by_cases hj : j = i
    · subst hj
      rw [Function.update_self, List.map_append, List.nodup_append]
      refine ⟨hl.queued_nodup j, hl.waiting_nodup j, fun a ha b hb hab => ?_⟩
      obtain ⟨t, ht, rfl⟩ := List.mem_map.1 ha
      obtain ⟨t', ht', rfl⟩ := List.mem_map.1 hb
      exact absurd (Holds.unique (hl.queued j t ht) (hl.waiting j t' ht') hab).2 (by simp)
    · rw [Function.update_of_ne hj]
      exact hl.queued_nodup j
  waiting_nodup := by
    intro j
    by_cases hj : j = i
    · subst hj
      rw [Function.update_self]
      simp
    · rw [Function.update_of_ne hj]
      exact hl.waiting_nodup j
  accounted := by
    intro id f' hf' hc hid
    rw [History.move, List.getElem?_map] at hf'
    obtain ⟨f, hf, rfl⟩ := Option.map_eq_some_iff.1 hf'
    by_cases hi : f.timer = i
    · rw [move_of_eq hi] at hc ⊢
      obtain ⟨r, hr⟩ := hl.accounted id f hf hc hid
      refine ⟨r, ?_⟩
      simp only [Bool.false_eq_true, if_false]
      rw [hi, Function.update_self, List.mem_append]
      rw [hi] at hr
      cases hw : f.waiting <;> simp only [hw, Bool.false_eq_true, if_false, if_true] at hr
      · exact .inl hr
      · exact .inr hr
    · rw [move_of_ne hi] at hc ⊢
      obtain ⟨r, hr⟩ := hl.accounted id f hf hc hid
      refine ⟨r, ?_⟩
      cases hw : f.waiting <;> simp only [hw, Bool.false_eq_true, if_false, if_true] at hr ⊢
      · rwa [Function.update_of_ne hi]
      · rwa [Function.update_of_ne hi]
  fired_nodup := hl.fired_nodup
  fired := by
    intro g hg
    obtain ⟨⟨f, hf, htimer, hreq, hm⟩, hdue, hlate, hc⟩ := hl.fired g hg
    refine ⟨⟨f.move i, getElem?_move hf, ?_, ?_, ?_⟩, hdue, hlate, hc⟩
    · unfold Fate.move
      split <;> exact htimer
    · unfold Fate.move
      split <;> exact hreq
    · unfold Fate.move
      split <;> exact hm

/-! ## A ticket that fires -/

theorem Holds.fire {i j : Fin n} {b : Bool} {t : Ticket} {e : Event} {x : Int}
    (ht : h.Holds j b t) (hne : t.1 ≠ e.id) : (h.fire i e x).Holds j b t := by
  refine ⟨ht.1, fun hid => ?_⟩
  rw [History.firedIds, History.fire, List.map_append, List.mem_append] at hid
  rcases hid with hid | hid
  · exact ht.2 hid
  · simp only [List.map_cons, List.map_nil, List.mem_singleton] at hid
    exact hne hid

theorem fire (hl : Ledger q w h) {i : Fin n} {e : Event} {rest : List Ticket}
    (hq : q i = e.ticket :: rest) {x : Int} (hx : e.time ≤ x) :
    Ledger (Function.update q i rest) w (h.fire i e x) := by
  have hold := hl.queued i e.ticket (by rw [hq]; exact List.mem_cons_self)
  have hnodup := hl.queued_nodup i
  rw [hq, List.map_cons, List.nodup_cons] at hnodup
  constructor
  case queued =>
    intro j t ht
    by_cases hj : j = i
    · subst hj
      rw [Function.update_self] at ht
      refine Holds.fire (hl.queued j t (by rw [hq]; exact List.mem_cons_of_mem _ ht)) fun he => ?_
      exact hnodup.1 (List.mem_map.2 ⟨t, ht, he⟩)
    · rw [Function.update_of_ne hj] at ht
      refine Holds.fire (hl.queued j t ht) fun he => ?_
      exact hj (Holds.unique (hl.queued j t ht) hold he).1
  case waiting =>
    intro j t ht
    refine Holds.fire (hl.waiting j t ht) fun he => ?_
    exact absurd (Holds.unique (hl.waiting j t ht) hold he).2 (by simp)
  case queued_nodup =>
    intro j
    by_cases hj : j = i
    · subst hj
      rw [Function.update_self]
      exact hnodup.2
    · rw [Function.update_of_ne hj]
      exact hl.queued_nodup j
  case waiting_nodup => exact hl.waiting_nodup
  case accounted =>
    intro id f hf hc hid
    rw [History.firedIds, History.fire, List.map_append, List.mem_append, not_or] at hid
    simp only [List.map_cons, List.map_nil, List.mem_singleton] at hid
    obtain ⟨r, hr⟩ := hl.accounted id f hf hc hid.1
    refine ⟨r, ?_⟩
    cases hw : f.waiting <;> simp only [hw, Bool.false_eq_true, if_false, if_true] at hr ⊢
    · by_cases hj : f.timer = i
      · rw [hj, Function.update_self]
        rw [hj, hq, List.mem_cons] at hr
        refine hr.resolve_left fun he => hid.2 ?_
        rw [Event.ticket, Prod.mk.injEq] at he
        exact he.1
      · rwa [Function.update_of_ne hj]
    · exact hr
  case fired_nodup =>
    rw [History.firedIds, History.fire, List.map_append, List.nodup_append]
    refine ⟨hl.fired_nodup, by simp, fun a ha b hb hab => ?_⟩
    simp only [List.map_cons, List.map_nil, List.mem_singleton] at hb
    rw [hab, hb] at ha
    exact hold.2 ha
  case fired =>
    intro g hg
    rw [History.fire, List.mem_append, List.mem_singleton] at hg
    rcases hg with hg | rfl
    · obtain ⟨hreq, hdue, hlate, hc⟩ := hl.fired g hg
      exact ⟨hreq, hdue, hlate, hc⟩
    · obtain ⟨⟨f, hf, htimer, hreq, -, hc⟩, -⟩ := hold
      simp only [Event.ticket] at hf
      refine ⟨⟨f, hf, htimer, hreq, ?_⟩, hx, rfl, ?_⟩
      · simp only [hf, Option.any_some]
        exact id
      · simp only [hf, Option.any_some, hc]

end Ledger

end AzaharPlus.Core

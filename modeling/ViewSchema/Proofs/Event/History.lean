import Mathlib.Data.List.Induction
import Mathlib.Logic.Function.Basic
import ViewSchema.Event.Bus
import ViewSchema.Proofs.Json.Fields

/-!
# Subscriptions in a history

Who is subscribed to what can be read off what has happened on a bus: a subscriber counts with
the callback given last, unless it has been unsubscribed since.  The order is that in which the
subscriptions began; giving a callback again does not begin a new one.

Main results:

- Theorem `EventBus.wellFormed_after`: subscribers are told apart by their ids, and no event is
  kept without one.
- Theorem `EventBus.mem_subscribers_after_iff`: who is subscribed after a history.
- Theorem `EventBus.ordered_after`: subscribers stand in the order in which they began.
- Theorem `not_subscribed_of_unsubscribed`: an unsubscribed one is gone until it subscribes again.
-/

namespace ViewSchema

variable {σ : Type} {history before between : List (Happening σ)} {happening : Happening σ}
  {event id : String} {callback : Callback σ} {moment : Nat}

/-! ## Subscriptions as events of a history -/

/-- Whether a happening concerns a subscription. -/
def Happening.Touches (event id : String) : Happening σ → Prop
  | .subscribed e i _ => e = event ∧ i = id
  | .unsubscribed e i => e = event ∧ i = id
  | _ => False

/-- Someone is subscribed with a callback: it was given, and nothing has concerned the
subscription since. -/
def Subscribed (history : List (Happening σ)) (event id : String) (callback : Callback σ) :
    Prop :=
  ∃ before later, history = before ++ .subscribed event id callback :: later ∧
    ∀ happening ∈ later, ¬ happening.Touches event id

/-- A subscription began at a moment: there was none before, and it has not been given up
since. -/
def Began (history : List (Happening σ)) (event id : String) (moment : Nat) : Prop :=
  ∃ before callback later, history = before ++ .subscribed event id callback :: later ∧
    before.length = moment ∧ (∀ callback, ¬ Subscribed before event id callback) ∧
      .unsubscribed event id ∉ later

/-- At the start nobody is subscribed. -/
theorem not_subscribed_nil : ¬ Subscribed ([] : List (Happening σ)) event id callback := by
  rintro ⟨before, later, heq, -⟩
  cases before <;> cases heq

/-- The last happening decides if it concerns the subscription. -/
theorem subscribed_snoc_iff :
    Subscribed (history ++ [happening]) event id callback ↔
      happening = .subscribed event id callback ∨
        ¬ happening.Touches event id ∧ Subscribed history event id callback := by
  constructor
  · rintro ⟨before, later, heq, hlater⟩
    rcases List.eq_nil_or_concat later with rfl | ⟨init, last, rfl⟩
    · exact .inl (List.head_eq_of_cons_eq (List.append_inj' heq rfl).2)
    · rw [List.concat_eq_append, ← List.cons_append, ← List.append_assoc] at heq
      obtain ⟨hinit, hlast⟩ := List.append_inj' heq rfl
      cases hlast
      exact .inr ⟨hlater _ (by simp), before, init, hinit, fun h hmem => hlater h (by simp [hmem])⟩
  · rintro (rfl | ⟨hfree, before, later, rfl, hlater⟩)
    · exact ⟨history, [], rfl, by simp⟩
    · refine ⟨before, later ++ [happening], by simp, ?_⟩
      intro other hmem
      rcases List.mem_append.1 hmem with hold | hnew
      · exact hlater other hold
      · rw [List.mem_singleton.1 hnew]
        exact hfree

/-- Once unsubscribed, someone is not subscribed until it subscribes again. -/
theorem not_subscribed_of_unsubscribed
    (hnone : ∀ callback, .subscribed event id callback ∉ between) :
    ¬ Subscribed (before ++ .unsubscribed event id :: between) event id callback := by
  induction between using List.reverseRecOn with
  | nil =>
    rw [subscribed_snoc_iff]
    simp [Happening.Touches]
  | append_singleton rest last ih =>
    rw [← List.cons_append, ← List.append_assoc, subscribed_snoc_iff]
    rintro (rfl | ⟨-, hrest⟩)
    · exact hnone callback (by simp)
    · exact ih (fun callback hmem => hnone callback (by simp [hmem])) hrest

/-- A subscription that lasts has begun before. -/
theorem Began.lt (h : Began history event id moment) : moment < history.length := by
  obtain ⟨before, callback, later, rfl, rfl, -, -⟩ := h
  simp

/-- A subscription goes on until it is given up. -/
theorem Began.snoc (h : Began history event id moment)
    (hkept : happening ≠ .unsubscribed event id) :
    Began (history ++ [happening]) event id moment := by
  obtain ⟨before, callback, later, rfl, rfl, hnone, hlater⟩ := h
  refine ⟨before, callback, later ++ [happening], by simp, rfl, hnone, ?_⟩
  simpa [hlater] using Ne.symm hkept

/-- A first subscription begins when it is made. -/
theorem began_snoc (hnone : ∀ callback, ¬ Subscribed history event id callback) :
    Began (history ++ [.subscribed event id callback]) event id history.length :=
  ⟨history, callback, [], rfl, rfl, hnone, by simp⟩

namespace EventBus

variable {bus : EventBus σ}

/-! ## Well-formed buses -/

/-- Events and the ids of their subscribers are distinct, and every event that is kept has
subscribers. -/
structure WellFormed (bus : EventBus σ) : Prop where
  distinct : Fields.Distinct bus.events
  distinct_ids : ∀ event, (bus.ids event).Nodup
  nonempty : ∀ entry ∈ bus.events, entry.2 ≠ []

/-- Subscribing again keeps the place; a new subscriber comes last. -/
theorem ids_subscribe (bus : EventBus σ) (event id other : String) (callback : Callback σ) :
    (bus.subscribe event id callback).ids other =
      if other = event then
        if id ∈ bus.ids event then bus.ids event else bus.ids event ++ [id]
      else bus.ids other := by
  unfold ids
  rw [subscribers_subscribe]
  split
  · exact Fields.names_set _ _ _
  · rfl

/-- Unsubscribing takes one subscriber from one event. -/
theorem ids_unsubscribe (bus : EventBus σ) (event id other : String) :
    (bus.unsubscribe event id).ids other =
      if other = event then (bus.ids event).filter (· != id) else bus.ids other := by
  unfold ids Fields.names
  rw [subscribers_unsubscribe]
  split
  · rw [List.filter_map]
    rfl
  · rfl

/-- An empty bus has no subscribers, and so none twice. -/
theorem wellFormed_empty : (empty : EventBus σ).WellFormed :=
  ⟨List.nodup_nil, fun _ => List.nodup_nil, by simp [empty]⟩

/-- Subscribing keeps a bus well formed: who is subscribed already keeps its place. -/
theorem WellFormed.subscribe (h : bus.WellFormed) (event id : String) (callback : Callback σ) :
    (bus.subscribe event id callback).WellFormed := by
  refine ⟨h.distinct.set _ _, ?_, ?_⟩
  · intro other
    unfold ids
    rw [subscribers_subscribe]
    split
    · exact Fields.Distinct.set (h.distinct_ids event) id callback
    · exact h.distinct_ids other
  · intro entry hentry
    rcases Fields.mem_set hentry with hold | hnew
    · exact h.nonempty entry hold
    · rw [hnew]
      cases bus.subscribers event with
      | nil => simp
      | cons first rest =>
        unfold Fields.set
        split <;> simp

/-- Unsubscribing keeps a bus well formed: an event without subscribers is not kept. -/
theorem WellFormed.unsubscribe (h : bus.WellFormed) (event id : String) :
    (bus.unsubscribe event id).WellFormed := by
  have hids : ∀ other, ((bus.unsubscribe event id).ids other).Nodup := by
    intro other
    rw [ids_unsubscribe]
    split
    · exact (h.distinct_ids event).filter _
    · exact h.distinct_ids other
  unfold EventBus.unsubscribe at hids ⊢
  split at hids
  · exact ⟨h.distinct.sublist (List.filter_sublist.map Prod.fst), hids,
      fun entry hentry => h.nonempty entry (List.mem_filter.1 hentry).1⟩
  · refine ⟨h.distinct.set _ _, hids, ?_⟩
    intro entry hentry
    rcases Fields.mem_set hentry with hold | hnew
    · exact h.nonempty entry hold
    · simp [hnew]

/-! ## The bus after a history -/

/-- What a happening does to the subscriptions. -/
def changed (bus : EventBus σ) : Happening σ → EventBus σ
  | .subscribed event id callback => bus.subscribe event id callback
  | .unsubscribed event id => bus.unsubscribe event id
  | _ => bus

/-- The bus to which a history leads. -/
def after (history : List (Happening σ)) : EventBus σ := history.foldl changed empty

/-- The bus after one more happening. -/
theorem after_snoc (history : List (Happening σ)) (happening : Happening σ) :
    after (history ++ [happening]) = (after history).changed happening := by
  simp [after]

/-- On the bus of any history, subscribers are told apart by their ids, and no event is kept
without one. -/
theorem wellFormed_after (history : List (Happening σ)) : (after history).WellFormed := by
  induction history using List.reverseRecOn with
  | nil => exact wellFormed_empty
  | append_singleton rest last ih =>
    rw [after_snoc]
    cases last with
    | subscribed event id callback => exact ih.subscribe event id callback
    | unsubscribed event id => exact ih.unsubscribe event id
    | _ => exact ih

/-- Looking a subscriber up after a history finds the callback with which it is subscribed. -/
theorem lookup_subscribers_after (history : List (Happening σ)) (event id : String)
    (callback : Callback σ) :
    ((after history).subscribers event).lookup id = some callback ↔
      Subscribed history event id callback := by
  induction history using List.reverseRecOn with
  | nil => simp [after, not_subscribed_nil]
  | append_singleton rest last ih =>
    rw [after_snoc, subscribed_snoc_iff]
    cases last with
    | subscribed e i given =>
      rw [changed, subscribers_subscribe]
      by_cases he : event = e
      · subst he
        rw [if_pos rfl, Fields.lookup_set]
        by_cases hi : id = i
        · simp [Happening.Touches, hi]
        · simp [Happening.Touches, hi, Ne.symm hi, ih]
      · simp [Happening.Touches, he, Ne.symm he, ih]
    | unsubscribed e i =>
      rw [changed, subscribers_unsubscribe]
      by_cases he : event = e
      · subst he
        rw [if_pos rfl, Fields.lookup_filter _ (fun name => name != i) id]
        by_cases hi : id = i
        · simp [Happening.Touches, hi]
        · simp [Happening.Touches, hi, Ne.symm hi, ih]
      · simp [Happening.Touches, he, Ne.symm he, ih]
    | _ => simp [changed, Happening.Touches, ih]

/-- Who is subscribed after a history, and with which callback. -/
theorem mem_subscribers_after_iff :
    (id, callback) ∈ (after history).subscribers event ↔
      Subscribed history event id callback := by
  rw [← lookup_subscribers_after,
    Fields.lookup_eq_some_iff ((wellFormed_after history).distinct_ids event)]

/-- Who is on the bus after a history is who the history says is subscribed. -/
theorem mem_ids_after_iff :
    id ∈ (after history).ids event ↔ ∃ callback, Subscribed history event id callback := by
  simp only [← mem_subscribers_after_iff, ids, Fields.names, List.mem_map]
  constructor
  · rintro ⟨subscriber, hmem, rfl⟩
    exact ⟨subscriber.2, hmem⟩
  · rintro ⟨callback, hmem⟩
    exact ⟨_, hmem, rfl⟩

/-- The subscribers of an event stand in the order in which their subscriptions began. -/
structure Ordered (history : List (Happening σ)) (event : String) (began : String → Nat) :
    Prop where
  begins : ∀ id ∈ (after history).ids event, Began history event id (began id)
  sorted : ((after history).ids event).Pairwise fun a b => began a < began b

/-- A happening that leaves the ids of an event alone leaves their order alone. -/
theorem Ordered.snoc_of_ids_eq {began : String → Nat} (h : Ordered history event began)
    (hids : ((after history).changed happening).ids event = (after history).ids event)
    (hkept : ∀ id ∈ (after history).ids event, happening ≠ .unsubscribed event id) :
    Ordered (history ++ [happening]) event began := by
  constructor
  · intro id hid
    rw [after_snoc, hids] at hid
    exact (h.begins id hid).snoc (hkept id hid)
  · rw [after_snoc, hids]
    exact h.sorted

/-- A new subscriber comes last, and began last. -/
theorem Ordered.subscribed_new {began : String → Nat} (h : Ordered history event began)
    (hnew : id ∉ (after history).ids event) :
    Ordered (history ++ [.subscribed event id callback]) event
      (Function.update began id history.length) := by
  have hids : (after (history ++ [.subscribed event id callback])).ids event =
      (after history).ids event ++ [id] := by
    rw [after_snoc, changed, ids_subscribe, if_pos rfl, if_neg hnew]
  have hbegan : ∀ other ∈ (after history).ids event,
      Function.update began id history.length other = began other := by
    intro other hother
    have hne : other ≠ id := by
      rintro rfl
      exact hnew hother
    exact Function.update_of_ne hne _ _
  constructor
  · intro other hother
    rw [hids, List.mem_append, List.mem_singleton] at hother
    rcases hother with hold | rfl
    · rw [hbegan other hold]
      exact (h.begins other hold).snoc (by simp)
    · rw [Function.update_self]
      exact began_snoc fun callback hsub => hnew (mem_ids_after_iff.2 ⟨callback, hsub⟩)
  · rw [hids, List.pairwise_append]
    refine ⟨?_, List.pairwise_singleton _ _, ?_⟩
    · exact h.sorted.imp_of_mem fun ha hb hlt => by rwa [hbegan _ ha, hbegan _ hb]
    · intro other hother last hlast
      rw [List.mem_singleton.1 hlast, hbegan other hother, Function.update_self]
      exact (h.begins other hother).lt

/-- Those that remain stay in their order. -/
theorem Ordered.unsubscribed {began : String → Nat} (h : Ordered history event began)
    (id : String) : Ordered (history ++ [.unsubscribed event id]) event began := by
  have hids : (after (history ++ [.unsubscribed event id])).ids event =
      ((after history).ids event).filter (· != id) := by
    rw [after_snoc, changed, ids_unsubscribe, if_pos rfl]
  constructor
  · intro other hother
    rw [hids, List.mem_filter] at hother
    refine (h.begins other hother.1).snoc ?_
    have hne : other ≠ id := by simpa using hother.2
    simpa using hne.symm
  · rw [hids]
    exact h.sorted.filter _

/-- After any history, the subscribers of an event stand in the order in which their
subscriptions began. -/
theorem ordered_after (history : List (Happening σ)) (event : String) :
    ∃ began, Ordered history event began := by
  induction history using List.reverseRecOn with
  | nil => exact ⟨fun _ => 0, by simp [after, ids], by simp [after, ids]⟩
  | append_singleton rest last ih =>
    obtain ⟨began, h⟩ := ih
    cases last with
    | subscribed e id callback =>
      by_cases he : event = e
      · subst he
        by_cases hid : id ∈ (after rest).ids event
        · refine ⟨began, h.snoc_of_ids_eq ?_ (by simp)⟩
          rw [changed, ids_subscribe, if_pos rfl, if_pos hid]
        · exact ⟨_, h.subscribed_new hid⟩
      · refine ⟨began, h.snoc_of_ids_eq ?_ (by simp)⟩
        rw [changed, ids_subscribe, if_neg he]
    | unsubscribed e id =>
      by_cases he : event = e
      · subst he
        exact ⟨began, h.unsubscribed id⟩
      · refine ⟨began, h.snoc_of_ids_eq ?_ (by simp [Ne.symm he])⟩
        rw [changed, ids_unsubscribe, if_neg he]
    | _ => exact ⟨began, h.snoc_of_ids_eq rfl (by simp)⟩

end EventBus

end ViewSchema

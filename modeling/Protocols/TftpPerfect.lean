import Protocols.TftpExchange

namespace Protocols

/-- What a party waits for is never late: it hears the oldest datagram on its way to it, and a
silence only when its peer has returned and nothing is on its way any more. -/
inductive Prompt (inFlight : List Packet) (receiver : Endpoint) (peer : Option (Option ErrorCode)) :
    Wake → List Packet → Prop
  | scheduled : Prompt inFlight receiver peer .scheduled inFlight
  | sent : Prompt inFlight receiver peer (.sent none) inFlight
  | datagram {before after sender bytes} : inFlight = before ++ ⟨sender, receiver, bytes⟩ :: after →
      (∀ p ∈ before, p.receiver ≠ receiver) →
      Prompt inFlight receiver peer (.datagram sender bytes) (before ++ after)
  | timeout : inFlight = [] → peer ≠ none → Prompt inFlight receiver peer .timeout inFlight

/-- The two ends of a transfer and the datagrams that have not been delivered yet. -/
structure PerfectExchange (α β : Type) where
  sender : α
  receiver : β
  inFlight : List Packet

/-- Every datagram is delivered exactly once, in order and before any timeout. -/
inductive PerfectStep {α β : Type} (p : Party α) (q : Party β) :
    PerfectExchange α β → PerfectExchange α β → Prop
  | sender {x disk wake rest s out} : disk.Works →
      Prompt x.inFlight (p.listens x.sender) (q.result x.receiver) wake rest →
      p.resume disk x.sender wake = some (s, out) →
      PerfectStep p q x { x with sender := s, inFlight := rest ++ outgoing p.endpoint out }
  | receiver {x disk wake rest r out} : disk.Works →
      Prompt x.inFlight (q.listens x.receiver) (p.result x.sender) wake rest →
      q.resume disk x.receiver wake = some (r, out) →
      PerfectStep p q x { x with receiver := r, inFlight := rest ++ outgoing q.endpoint out }

section

variable {α β : Type} {p : Party α} {q : Party β} {a : α} {b : β} {inFlight : List Packet}
  {peer : Option (Option ErrorCode)}

/-- Nothing that may happen to the party now makes it run. -/
def Waits (p : Party α) (a : α) (inFlight : List Packet) (peer : Option (Option ErrorCode)) :
    Prop :=
  ∀ disk wake rest, disk.Works → Prompt inFlight (p.listens a) peer wake rest →
    p.resume disk a wake = none

/-- Something makes the party run, and whatever does leads to `Q`. -/
def Moves (p : Party α) (a : α) (inFlight : List Packet) (peer : Option (Option ErrorCode))
    (Q : α → List Packet → Prop) : Prop :=
  (∃ disk wake rest t, disk.Works ∧ Prompt inFlight (p.listens a) peer wake rest ∧
    p.resume disk a wake = some t) ∧
  ∀ disk wake rest t, disk.Works → Prompt inFlight (p.listens a) peer wake rest →
    p.resume disk a wake = some t → Q t.1 (rest ++ outgoing p.endpoint t.2)

theorem leadsTo_of_sender {R R' : PerfectExchange α β → Prop}
    (h : ∀ x, R x → Waits q x.receiver x.inFlight (p.result x.sender) ∧
      Moves p x.sender x.inFlight (q.result x.receiver) fun a packets => R' ⟨a, x.receiver, packets⟩) :
    LeadsTo (PerfectStep p q) R R' := by
  intro x hx
  obtain ⟨hw, ⟨disk, wake, rest, t, hd, hp, hr⟩, hm⟩ := h x hx
  refine ⟨⟨_, .sender hd hp hr⟩, fun y hy => ?_⟩
  cases hy with
  | sender hd hp hr => exact hm _ _ _ _ hd hp hr
  | receiver hd hp hr => rw [hw _ _ _ hd hp] at hr; cases hr

theorem leadsTo_of_receiver {R R' : PerfectExchange α β → Prop}
    (h : ∀ x, R x → Waits p x.sender x.inFlight (q.result x.receiver) ∧
      Moves q x.receiver x.inFlight (p.result x.sender) fun b packets => R' ⟨x.sender, b, packets⟩) :
    LeadsTo (PerfectStep p q) R R' := by
  intro x hx
  obtain ⟨hw, ⟨disk, wake, rest, t, hd, hp, hr⟩, hm⟩ := h x hx
  refine ⟨⟨_, .receiver hd hp hr⟩, fun y hy => ?_⟩
  cases hy with
  | sender hd hp hr => rw [hw _ _ _ hd hp] at hr; cases hr
  | receiver hd hp hr => exact hm _ _ _ _ hd hp hr

theorem waits_of_stopped (h : ∀ disk wake, p.resume disk a wake = none) :
    Waits p a inFlight peer := fun disk wake _ _ _ => h disk wake

theorem waits_of_listening
    (h : ∀ disk, disk.Works → p.resume disk a .scheduled = none ∧ p.resume disk a (.sent none) = none)
    (hn : ∀ d ∈ inFlight, d.receiver ≠ p.listens a) : Waits p a inFlight none := by
  intro disk wake rest hd hp
  cases hp with
  | scheduled => exact (h disk hd).1
  | sent => exact (h disk hd).2
  | datagram he _ => exact absurd rfl (hn _ (he ▸ List.mem_append_cons_self))
  | timeout _ hpeer => exact absurd rfl hpeer

theorem moves_of_wake {Q : α → List Packet → Prop} {wake : Wake}
    (hwake : wake = .scheduled ∨ wake = .sent none)
    (idle : ∀ disk w, disk.Works → w ≠ wake → w ≠ .watchdog → (∀ e, w ≠ .sent (some e)) →
      p.resume disk a w = none)
    (runs : ∀ disk, disk.Works → ∃ t, p.resume disk a wake = some t ∧
      Q t.1 (inFlight ++ outgoing p.endpoint t.2)) :
    Moves p a inFlight peer Q := by
  constructor
  · obtain ⟨t, ht, _⟩ := runs {} disk_works
    rcases hwake with rfl | rfl
    · exact ⟨{}, _, _, t, disk_works, .scheduled, ht⟩
    · exact ⟨{}, _, _, t, disk_works, .sent, ht⟩
  · intro disk w rest t hd hp ht
    by_cases hw : w = wake
    · subst hw
      obtain ⟨t', ht', hq⟩ := runs disk hd
      rw [ht'] at ht
      cases ht
      rcases hwake with rfl | rfl <;> cases hp <;> exact hq
    · rw [idle disk w hd hw (by rintro rfl; cases hp) (by rintro e rfl; cases hp)] at ht
      cases ht

theorem moves_of_datagram {Q : α → List Packet → Prop} {d : Packet}
    (h : ∀ disk, disk.Works → p.resume disk a .scheduled = none ∧ p.resume disk a (.sent none) = none)
    (hr : d.receiver = p.listens a)
    (hears : ∀ disk, disk.Works → ∃ t, p.resume disk a (.datagram d.sender d.bytes) = some t ∧
      Q t.1 (outgoing p.endpoint t.2)) :
    Moves p a [d] peer Q := by
  obtain ⟨sender, receiver, bytes⟩ := d
  simp only at hr hears
  subst hr
  constructor
  · obtain ⟨t, ht, _⟩ := hears {} disk_works
    exact ⟨{}, _, [], t, disk_works, .datagram (List.nil_append [_]).symm (by simp), ht⟩
  · intro disk w rest t hd hp ht
    cases hp with
    | scheduled => rw [(h disk hd).1] at ht; cases ht
    | sent => rw [(h disk hd).2] at ht; cases ht
    | @datagram before after _ _ he _ =>
      cases before with
      | nil =>
        simp only [List.nil_append, List.cons.injEq, Packet.mk.injEq, true_and] at he
        obtain ⟨⟨rfl, rfl⟩, rfl⟩ := he
        obtain ⟨t', ht', hq⟩ := hears disk hd
        rw [ht'] at ht
        cases ht
        exact hq
      | cons => simp at he
    | timeout he _ => simp at he

theorem moves_of_silence {Q : α → List Packet → Prop}
    (h : ∀ disk, disk.Works → p.resume disk a .scheduled = none ∧ p.resume disk a (.sent none) = none)
    (hpeer : peer ≠ none)
    (hears : ∀ disk, disk.Works → ∃ t, p.resume disk a .timeout = some t ∧
      Q t.1 (outgoing p.endpoint t.2)) :
    Moves p a [] peer Q := by
  constructor
  · obtain ⟨t, ht, _⟩ := hears {} disk_works
    exact ⟨{}, _, _, t, disk_works, .timeout rfl hpeer, ht⟩
  · intro disk w rest t hd hp ht
    cases hp with
    | scheduled => rw [(h disk hd).1] at ht; cases ht
    | sent => rw [(h disk hd).2] at ht; cases ht
    | datagram he _ => simp at he
    | timeout =>
      obtain ⟨t', ht', hq⟩ := hears disk hd
      rw [ht'] at ht
      cases ht
      exact hq

end

end Protocols

import UnknownTunnel.Foundation.Machine
import Mathlib.Data.List.Infix

/-!
# Ordered channels

A channel is a machine that takes items from its callers, gives each of them
a place in an order, and has handed a beginning of that order to its receiver.
Channels of two kinds are one channel, and any number of channels, opened one
after the other, form a bank.

## Implementation notes

An item may be taken long before it gets its place, and some items never get
one. What a channel holds back and what it has ordered therefore come from
what it was offered, while only what it has ordered limits what is received.
-/

namespace UnknownTunnel.Foundation

/-- A machine that carries items from its callers to a receiver. -/
structure Channel (σ ε α : Type*) extends Machine σ ε where
  /-- The item a step takes from a caller. -/
  offers : ε → Option α
  /-- Items that were taken and have no place in the order yet. -/
  holds : σ → List α
  sent : σ → List α
  received : σ → List α

namespace Channel

variable {σ ε σ' ε' α : Type*}

/-- Everything inside a channel was offered to it, the order only grows, and
the receiver has a beginning of it. -/
structure Lawful (K : Channel σ ε α) : Prop where
  empty : ∀ s, K.init s → K.holds s = [] ∧ K.sent s = []
  origin : ∀ s e, K.enabled s e → ∀ a ∈ K.holds (K.apply s e) ++ K.sent (K.apply s e),
    a ∈ K.holds s ++ K.sent s ∨ K.offers e = some a
  grows : ∀ s e, K.enabled s e → K.sent s <+: K.sent (K.apply s e)
  ordered : ∀ s, K.Reachable s → K.received s <+: K.sent s

/-- What is inside a channel has every property of what it is offered. -/
theorem Lawful.inside {K : Channel σ ε α} (hK : K.Lawful) {P : α → Prop} {s : σ} {e : ε}
    (he : K.enabled s e) (inside : ∀ a ∈ K.holds s ++ K.sent s, P a)
    (offered : ∀ a, K.offers e = some a → P a) :
    ∀ a ∈ K.holds (K.apply s e) ++ K.sent (K.apply s e), P a := by
  intro a ha
  obtain hold | hnew := hK.origin s e he a ha
  · exact inside a hold
  · exact offered a hnew

/-- A received list that goes one item further is still a beginning. -/
theorem prefix_snoc {l m : List α} {a : α} (h : l <+: m) (ha : m[l.length]? = some a) :
    l ++ [a] <+: m := by
  obtain ⟨rest, rfl⟩ := h
  rw [List.getElem?_append_right (Nat.le_refl _), Nat.sub_self] at ha
  cases rest with
  | nil => cases ha
  | cons b rest =>
      obtain rfl := Option.some.inj ha
      exact ⟨rest, List.append_assoc l [b] rest⟩

/-- `ready n` means that a channel can carry `n` more items: it takes the next
item that fits and hands it over, by steps that take nothing else. -/
def Conveys (K : Channel σ ε α) (fits : α → Prop) (ready : Nat → σ → Prop) : Prop :=
  ∀ n s a, ready (n + 1) s → fits a → ∃ es : List ε,
    K.Permitted (fun _ e => ∀ b, K.offers e = some b → b = a) s es ∧
      ready n (es.foldl K.apply s) ∧ K.received (es.foldl K.apply s) = K.received s ++ [a]

theorem conveys_never (K : Channel σ ε α) (fits : α → Prop) : K.Conveys fits fun _ _ => False :=
  fun _ _ _ h _ => h.elim

theorem Conveys.of_fits {K : Channel σ ε α} {fits fits' : α → Prop} {ready : Nat → σ → Prop}
    (h : K.Conveys fits ready) (hfits : ∀ a, fits' a → fits a) : K.Conveys fits' ready :=
  fun n s a hready ha => h n s a hready (hfits a ha)

/-! ## Two kinds of channels -/

/-- The step of one of two machines; a step of the other kind does nothing. -/
def applySum (K : Channel σ ε α) (K' : Channel σ' ε' α) : σ ⊕ σ' → ε ⊕ ε' → σ ⊕ σ'
  | .inl s, .inl e => .inl (K.apply s e)
  | .inr s, .inr e => .inr (K'.apply s e)
  | s, _ => s

def enabledSum (K : Channel σ ε α) (K' : Channel σ' ε' α) : σ ⊕ σ' → ε ⊕ ε' → Prop
  | .inl s, .inl e => K.enabled s e
  | .inr s, .inr e => K'.enabled s e
  | _, _ => False

/-- A channel of either kind. -/
def sum (K : Channel σ ε α) (K' : Channel σ' ε' α) : Channel (σ ⊕ σ') (ε ⊕ ε') α where
  init := Sum.elim K.init K'.init
  enabled := enabledSum K K'
  apply := applySum K K'
  offers := Sum.elim K.offers K'.offers
  holds := Sum.elim K.holds K'.holds
  sent := Sum.elim K.sent K'.sent
  received := Sum.elim K.received K'.received

/-- A channel of either kind runs as a channel of its own kind. -/
theorem reachable_sum {K : Channel σ ε α} {K' : Channel σ' ε' α} {s : σ ⊕ σ'}
    (run : (K.sum K').Reachable s) : Sum.elim K.Reachable K'.Reachable s := by
  induction run with
  | @start s h =>
      cases s with
      | inl s => exact .start h
      | inr s => exact .start h
  | @next s e run he hok ih =>
      cases s with
      | inl s =>
          cases e with
          | inl e => exact .next ih he trivial
          | inr e => cases he
      | inr s =>
          cases e with
          | inl e => cases he
          | inr e => exact .next ih he trivial

theorem Lawful.sum {K : Channel σ ε α} {K' : Channel σ' ε' α} (hK : K.Lawful)
    (hK' : K'.Lawful) : (K.sum K').Lawful where
  empty := by
    intro s h
    cases s with
    | inl s => exact hK.empty s h
    | inr s => exact hK'.empty s h
  origin := by
    intro s e he
    cases s with
    | inl s =>
        cases e with
        | inl e => exact hK.origin s e he
        | inr e => cases he
    | inr s =>
        cases e with
        | inl e => cases he
        | inr e => exact hK'.origin s e he
  grows := by
    intro s e he
    cases s with
    | inl s =>
        cases e with
        | inl e => exact hK.grows s e he
        | inr e => cases he
    | inr s =>
        cases e with
        | inl e => cases he
        | inr e => exact hK'.grows s e he
  ordered := by
    intro s run
    have h := reachable_sum run
    cases s with
    | inl s => exact hK.ordered s h
    | inr s => exact hK'.ordered s h

/-- A run of one kind is a run of the channel of either kind. -/
theorem permitted_inl {K : Channel σ ε α} (K' : Channel σ' ε' α) {P : α → Prop} {s : σ}
    {es : List ε} (h : K.Permitted (fun _ e => ∀ b, K.offers e = some b → P b) s es) :
    (K.sum K').Permitted (fun _ e => ∀ b, (K.sum K').offers e = some b → P b) (.inl s)
        (es.map .inl) ∧
      (es.map Sum.inl).foldl (K.sum K').apply (.inl s) = .inl (es.foldl K.apply s) := by
  induction es generalizing s with
  | nil => exact ⟨trivial, rfl⟩
  | cons e es ih =>
      obtain ⟨he, hok, hes⟩ := h
      obtain ⟨hpermitted, hstate⟩ := ih hes
      exact ⟨⟨he, hok, hpermitted⟩, hstate⟩

theorem permitted_inr (K : Channel σ ε α) {K' : Channel σ' ε' α} {P : α → Prop} {s : σ'}
    {es : List ε'} (h : K'.Permitted (fun _ e => ∀ b, K'.offers e = some b → P b) s es) :
    (K.sum K').Permitted (fun _ e => ∀ b, (K.sum K').offers e = some b → P b) (.inr s)
        (es.map .inr) ∧
      (es.map Sum.inr).foldl (K.sum K').apply (.inr s) = .inr (es.foldl K'.apply s) := by
  induction es generalizing s with
  | nil => exact ⟨trivial, rfl⟩
  | cons e es ih =>
      obtain ⟨he, hok, hes⟩ := h
      obtain ⟨hpermitted, hstate⟩ := ih hes
      exact ⟨⟨he, hok, hpermitted⟩, hstate⟩

theorem Conveys.sum {K : Channel σ ε α} {K' : Channel σ' ε' α} {fits : α → Prop}
    {ready : Nat → σ → Prop} {ready' : Nat → σ' → Prop} (hK : K.Conveys fits ready)
    (hK' : K'.Conveys fits ready') :
    (K.sum K').Conveys fits fun n => Sum.elim (ready n) (ready' n) := by
  intro n s a hready hfits
  cases s with
  | inl s =>
      obtain ⟨es, hes, hnext, hreceived⟩ := hK n s a hready hfits
      obtain ⟨hpermitted, hstate⟩ := permitted_inl K' hes
      refine ⟨es.map .inl, hpermitted, ?_⟩
      rw [hstate]
      exact ⟨hnext, hreceived⟩
  | inr s =>
      obtain ⟨es, hes, hnext, hreceived⟩ := hK' n s a hready hfits
      obtain ⟨hpermitted, hstate⟩ := permitted_inr K hes
      refine ⟨es.map .inr, hpermitted, ?_⟩
      rw [hstate]
      exact ⟨hnext, hreceived⟩

/-! ## Banks of channels -/

/-- One channel of a bank takes a step. -/
def stepAt (K : Channel σ ε α) (i : Nat) (e : ε) (bank : List σ) : List σ :=
  bank.modify i fun s => K.apply s e

theorem getElem?_stepAt (K : Channel σ ε α) (i j : Nat) (e : ε) (bank : List σ) :
    (K.stepAt i e bank)[j]? = bank[j]?.map fun s => if i = j then K.apply s e else s := by
  rw [stepAt, List.getElem?_modify]
  rfl

/-- Every channel of the bank has run from one of its initial states, and
everything inside it has the property. -/
def Stocked (K : Channel σ ε α) (P : α → Prop) (bank : List σ) : Prop :=
  ∀ (i : Nat) (s : σ), bank[i]? = some s →
    K.Reachable s ∧ ∀ a ∈ K.holds s ++ K.sent s, P a

theorem Stocked.mono {K : Channel σ ε α} {P Q : α → Prop} {bank : List σ} (h : K.Stocked P bank)
    (hPQ : ∀ a, P a → Q a) : K.Stocked Q bank := by
  intro i s hs
  obtain ⟨run, hin⟩ := h i s hs
  exact ⟨run, fun a ha => hPQ a (hin a ha)⟩

theorem Stocked.open {K : Channel σ ε α} (hK : K.Lawful) {P : α → Prop} {bank : List σ}
    (h : K.Stocked P bank) {s : σ} (hs : K.init s) : K.Stocked P (bank ++ [s]) := by
  intro i t ht
  rw [List.getElem?_append] at ht
  split at ht
  · exact h i t ht
  · obtain rfl : s = t := by
      obtain ⟨hlt, hval⟩ := List.getElem?_eq_some_iff.mp ht
      rwa [List.getElem_singleton] at hval
    obtain ⟨hholds, hsent⟩ := hK.empty s hs
    rw [hholds, hsent]
    exact ⟨.start hs, fun a ha => by cases ha⟩

/-- The induction over the steps of a bank. -/
theorem Stocked.step {K : Channel σ ε α} (hK : K.Lawful) {P : α → Prop} {bank : List σ}
    (h : K.Stocked P bank) {i : Nat} {s : σ} {e : ε} (hs : bank[i]? = some s)
    (he : K.enabled s e) (offered : ∀ a, K.offers e = some a → P a) :
    K.Stocked P (K.stepAt i e bank) := by
  intro j t ht
  rw [getElem?_stepAt, Option.map_eq_some_iff] at ht
  obtain ⟨u, hu, rfl⟩ := ht
  obtain ⟨run, hin⟩ := h j u hu
  split
  · rename_i hij
    subst hij
    obtain rfl : s = u := Option.some.inj (hs.symm.trans hu)
    exact ⟨.next run he trivial, hK.inside he hin offered⟩
  · exact ⟨run, hin⟩

/-- What was a beginning of a channel's order stays one. -/
theorem prefix_stepAt {K : Channel σ ε α} (hK : K.Lawful) {bank : List σ} {i j : Nat} {s t : σ}
    {e : ε} {l : List α} {n : Nat} (hs : bank[i]? = some s) (he : K.enabled s e)
    (ht : bank[j]? = some t) (h : l <+: (K.sent t).drop n) :
    ∃ u, (K.stepAt i e bank)[j]? = some u ∧ l <+: (K.sent u).drop n := by
  rw [getElem?_stepAt, ht]
  refine ⟨_, rfl, ?_⟩
  split
  · rename_i hij
    subst hij
    obtain rfl : s = t := Option.some.inj (hs.symm.trans ht)
    exact h.trans ((hK.grows s e he).drop n)
  · exact h

end Channel

end UnknownTunnel.Foundation

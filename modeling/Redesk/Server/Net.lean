import Redesk.Common.Types
import Redesk.Machine.PrefixCode
import Redesk.Machine.Runs

/-! What the servers share of the network: the endpoint of a peer, which its display tells apart
from every other numeric one, what a round of their loops receives, and the clock that the rounds
read when it does not run back. -/
namespace Redesk.Server
open Machine PrefixCode

structure Endpoint where
  /-- Numeric address, as the system presents it. -/
  host : String := ""
  port : UInt16 := 0
  ipv6 : Bool := false
  deriving DecidableEq, Repr, Inhabited

def Endpoint.display (e : Endpoint) : String :=
  if e.ipv6 then "[" ++ e.host ++ "]:" ++ toString e.port.toNat
  else e.host ++ ":" ++ toString e.port.toNat

namespace Endpoint

/-- The characters that the system writes a numeric address with. -/
def addressChar (ipv6 : Bool) (c : Char) : Bool :=
  c.isDigit || c == '.' || ipv6 && (c == ':' || 'a' ≤ c && c ≤ 'f')

/-- An endpoint as the system presents it. -/
def Numeric (e : Endpoint) : Prop := ∀ c ∈ e.host.toList, addressChar e.ipv6 c = true

instance {e : Endpoint} : Decidable e.Numeric := inferInstanceAs (Decidable (∀ _ ∈ _, _))

variable {e e' : Endpoint}

/-- The port in decimal. -/
def portDigits (e : Endpoint) : List Char := Nat.toDigits 10 e.port.toNat

theorem toList_display : e.display.toList = if e.ipv6 then
    '[' :: (e.host.toList ++ ']' :: ':' :: e.portDigits)
    else e.host.toList ++ ':' :: e.portDigits := by
  rw [display]
  split <;> simp [toString, portDigits]

theorem port_of_digits (h : e.portDigits = e'.portDigits) : e.port = e'.port := by
  have hnat := congrArg (Nat.ofDigitChars 10 · 0) h
  simp only [portDigits, Nat.ofDigitChars_ten_toDigits] at hnat
  exact UInt16.toNat_inj.mp hnat

theorem notMem_portDigits {c : Char} (hc : c.isDigit = false) : c ∉ e.portDigits := by
  intro hmem
  rw [Nat.isDigit_of_mem_toDigits (by decide) (by decide) hmem] at hc
  cases hc

theorem Numeric.notMem {c : Char} (hn : e.Numeric) (hc : addressChar e.ipv6 c = false) :
    c ∉ e.host.toList := by
  intro hmem
  rw [hn c hmem] at hc
  cases hc

theorem Numeric.notMem_display (hn : e.Numeric) : '|' ∉ e.display.toList := by
  have hhost : '|' ∉ e.host.toList := hn.notMem (by cases e.ipv6 <;> rfl)
  have hport : '|' ∉ e.portDigits := notMem_portDigits rfl
  rw [toList_display]
  split <;> simp [hhost, hport]

/-- Only the display of an IPv6 endpoint starts with a bracket. -/
theorem Numeric.ne_bracket (hn : e.Numeric) (h4 : e.ipv6 = false) (rest : List Char) :
    e.host.toList ++ ':' :: e.portDigits ≠ '[' :: rest := by
  intro heq
  cases hhost : e.host.toList with
  | nil =>
    rw [hhost] at heq
    exact absurd (List.head_eq_of_cons_eq heq) (by decide)
  | cons c host =>
    rw [hhost] at heq
    obtain rfl := List.head_eq_of_cons_eq heq
    exact hn.notMem (c := '[') (by rw [h4]; rfl) (by rw [hhost]; exact List.mem_cons_self ..)

theorem Numeric.display_inj (hn : e.Numeric) (hn' : e'.Numeric) (h : e.display = e'.display) :
    e = e' := by
  have hlist := congrArg String.toList h
  rw [toList_display, toList_display] at hlist
  cases h6 : e.ipv6 <;> cases h6' : e'.ipv6 <;> simp only [h6, h6', if_true, if_false,
    Bool.false_eq_true] at hlist
  · obtain ⟨hhost, hport⟩ := append_cons_inj (hn.notMem (by rw [h6]; rfl))
      (hn'.notMem (by rw [h6']; rfl)) hlist
    have hhost := String.toList_inj.mp hhost
    have hport := port_of_digits hport
    cases e; cases e'; simp_all
  · exact absurd hlist (hn.ne_bracket h6 _)
  · exact absurd hlist.symm (hn'.ne_bracket h6' _)
  · obtain ⟨hhost, hport⟩ := append_cons_inj (hn.notMem (by rw [h6]; rfl))
      (hn'.notMem (by rw [h6']; rfl)) (List.tail_eq_of_cons_eq hlist)
    have hhost := String.toList_inj.mp hhost
    have hport := port_of_digits (List.tail_eq_of_cons_eq hport)
    cases e; cases e'; simp_all

end Endpoint

/-- One round of a server loop: what came in, and when; the clock is read again for the sweep. -/
inductive Event where
  | datagram (src : Endpoint) (data : Bytes) (now sweepNow : ℤ)
  | nothing (sweepNow : ℤ)
  deriving DecidableEq, Repr

/-- When the sweep of a round reads the clock. -/
def Event.sweepNow : Event → ℤ
  | .datagram _ _ _ sweepNow => sweepNow
  | .nothing sweepNow => sweepNow

/-- The round reads the clock in order, and not before the time `t`. -/
def Event.From (t : ℤ) : Event → Prop
  | .datagram _ _ now sweepNow => t ≤ now ∧ now ≤ sweepNow
  | .nothing sweepNow => t ≤ sweepNow

instance (t : ℤ) : (e : Event) → Decidable (e.From t)
  | .datagram _ _ _ _ => inferInstanceAs (Decidable (_ ∧ _))
  | .nothing _ => inferInstanceAs (Decidable (_ ≤ _))

/-- When a datagram came in with the round. -/
def Event.received : Event → Option ℤ
  | .datagram _ _ now _ => some now
  | .nothing _ => none

section
variable {σ ω : Type*} {start : ℤ} {h : List (Call σ Event ω)}

/-- What the clock said when it was last read. -/
def clock (start : ℤ) (h : List (Call σ Event ω)) : ℤ :=
  (h.getLast?.map fun c => c.op.sweepNow).getD start

@[simp] theorem clock_nil : clock start ([] : List (Call σ Event ω)) = start := rfl

@[simp] theorem clock_snoc (c : Call σ Event ω) : clock start (h ++ [c]) = c.op.sweepNow := by
  simp [clock]

/-- The clock does not run back during the calls. -/
def Chronological (start : ℤ) (h : List (Call σ Event ω)) : Prop :=
  Along (fun a c => c.op.From (clock start a)) h

/-- The number of datagrams that have come in less than `span` seconds ago. -/
def datagramsWithin (span start : ℤ) (h : List (Call σ Event ω)) : ℕ :=
  h.countP fun c => c.op.received.any fun now => decide (clock start h - now < span)

theorem Event.From.received {t now : ℤ} {e : Event} (h : e.From t) (hr : e.received = some now) :
    t ≤ now := by
  cases e with
  | datagram src data now sweepNow =>
    obtain rfl := Option.some.inj hr
    exact h.1
  | nothing sweepNow => cases hr

theorem Event.From.le {t : ℤ} {e : Event} (h : e.From t) : t ≤ e.sweepNow := by
  cases e with
  | datagram src data now sweepNow => exact h.1.trans h.2
  | nothing sweepNow => exact h

end

end Redesk.Server

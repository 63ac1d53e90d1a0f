import Redesk.Rendezvous.Introductions

/-! The frames that the server sends, as its handlers build them and as they arrive. -/
namespace Redesk.Rendezvous.Loop
open Server Machine

variable {signer : Signer} {s : Loop} {h : List Call} {src dst : Endpoint} {data out : Bytes}
  {now : ℤ} {f g : Frame} {map : Registry}

/-- A handler passes the frame `g` on to be sent to `dst`. -/
def Passes (signer : Signer) (map : Registry) (src : Endpoint) (data : Bytes) (now : ℤ)
    (dst : Endpoint) (g : Frame) : Prop :=
  ∃ f, frameOf data = some f ∧ Answer signer map src f now dst g

/-- Every answer is sent. -/
theorem reply_of_answer (ha : Answer signer map src f now dst g) :
    reply signer map src f now = some (dst, encodeFrame g) := by
  cases ha with
  | registered type taken signed =>
    have hlen : kStaticPubKeyLen ≤ f.body.length := by
      have hkey : (f.body.take kStaticPubKeyLen).length = kStaticPubKeyLen := taken.2.1
      rw [List.length_take] at hkey
      omega
    rw [reply_register type, if_pos ⟨hlen, taken⟩]
    simp [introduction, signed, sendFrame]
  | found type bound signed =>
    simp [reply, type, handleLookup, Registry.lookup, bound, signed, sendFrame]
  | missing type free =>
    rcases type with type | type
    · have htarget : target f = lookupTarget f := if_pos type
      rw [htarget] at free ⊢
      simp [reply, type, handleLookup, Registry.lookup, free, sendFrame]
    · have htarget : target f = f.id := if_neg (by simp [type])
      rw [htarget] at free ⊢
      simp [reply, type, handleBroker, Registry.lookup, free, sendFrame]
  | relayed type bound =>
    simp [reply, type, handleBroker, Registry.lookup, bound, sendFrame]

/-- What goes out is what the handlers pass on, encoded. -/
theorem handle_eq_some_iff : (handle signer s src data now).1 = some (dst, out) ↔
    ∃ g, Passes signer s.registry src data now dst g ∧ out = encodeFrame g := by
  constructor
  · intro hres
    cases hf : frameOf data with
    | none =>
      rw [reply_handle, hf] at hres
      cases hres
    | some f =>
      obtain ⟨g, hout, ha⟩ := answer_of_frame hf hres
      exact ⟨g, ⟨f, hf, ha⟩, hout⟩
  · rintro ⟨g, ⟨f, hf, ha⟩, rfl⟩
    rw [reply_handle, hf]
    exact reply_of_answer ha

/-- Every frame that a handler passes on for the datagram arrives as it was built. -/
def Untruncated (signer : Signer) (map : Registry) (src : Endpoint) (data : Bytes) (now : ℤ) :
    Prop :=
  ∀ dst g, Passes signer map src data now dst g → decodeFrame (encodeFrame g) = .good g

theorem length_target (hf : frameOf data = some f)
    (hlong : f.type = .lookup → f.id = [] → f.body.length ≤ 255) : (target f).length ≤ 255 := by
  have hfits := (frameOf_fits hf).1
  unfold target lookupTarget
  split
  · rename_i hlookup
    split
    · exact hfits.id
    · rename_i hid
      exact hlong hlookup (by simpa using hid)
  · exact hfits.id

/-- The frames for a datagram arrive as they were built just when it is no lookup that has its
target, of more than 255 bytes, in its body. -/
theorem untruncated_iff {start : ℤ} (hr : Run signer { lastSweep := start } h s) :
    Untruncated signer s.registry src data now ↔
      ∀ f, frameOf data = some f → f.type = .lookup → f.id = [] → f.body.length ≤ 255 := by
  have ht := traced_run hr
  constructor
  · intro hu f hf hlookup hid
    by_contra hlong
    have htarget : target f = f.body := by simp [target, lookupTarget, hlookup, hid]
    have hfree : s.registry[target f]? = none := by
      rw [htarget]
      cases hr : s.registry[f.body]? with
      | none => rfl
      | some r => exact absurd (ht.short f.body r hr) hlong
    have hsent := hu src _ ⟨f, hf, .missing (.inl hlookup) hfree⟩
    have hcut := decodeFrame_encodeFrame (f := { type := .lookupFail, id := target f })
      (s := []) (by simp)
    rw [List.append_nil, hsent] at hcut
    have hlen := congrArg (fun r : Result Frame => r.value.id.length) hcut
    simp only [Result.good, Frame.cut, List.length_take, htarget] at hlen
    omega
  · rintro hlong dst g ⟨f, hf, ha⟩
    have hfits := fits_of_answer ht hf ha fun _ => length_target hf (hlong f hf)
    simpa using decodeFrame_of_fits (s := []) hfits

theorem untruncated_registered : Untruncated insecureTestSigner registered.registry { port := 2 }
    (encodeFrame { type := .lookup, body := [9] }) 1 := by
  refine (untruncated_iff (run_calls _ _)).mpr ?_
  intro f hf _ _
  have hbody : (frameOf (encodeFrame { type := .lookup, body := [9] })).map (·.body.length) =
      some 1 := by decide
  rw [hf] at hbody
  exact (Option.some.inj hbody).le.trans (by decide)

/-- The reply to a lookup of 256 bytes names an id of 255 bytes. -/
theorem not_untruncated_long : ¬ Untruncated insecureTestSigner ∅ { port := 2 }
    (encodeFrame { type := .lookup, body := List.replicate 256 9 }) 0 := by
  intro hu
  have hf : frameOf (encodeFrame { type := .lookup, body := List.replicate 256 9 }) =
      some { type := .lookup, body := List.replicate 256 9 } := by decide +kernel
  have hsent := hu { port := 2 } _ ⟨_, hf, .missing (.inl rfl) rfl⟩
  exact absurd hsent (by decide +kernel)

end Redesk.Rendezvous.Loop

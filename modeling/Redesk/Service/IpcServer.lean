import Mathlib.Algebra.BigOperators.Group.List.Basic
import Mathlib.Algebra.GroupWithZero.Nat
import Mathlib.Data.List.TakeWhile
import Mathlib.Tactic.Common
import Redesk.Common.Types
import Redesk.Machine.Endian

/-! The local IPC server of the service: one request and one reply on a connection, each behind its
length as four bytes, the lowest first. They are carried in pieces: each call moves at most as much
as its entry of a list says, and nothing goes through after an entry of zero or the end of the
list. -/
namespace Pieces

variable {ks : List ℕ} {k m n : ℕ}

/-- The calls carry `n` before one of them fails. -/
def Carries (ks : List ℕ) (n : ℕ) : Prop := n ≤ (ks.takeWhile (0 < ·)).sum

instance : Decidable (Carries ks n) := inferInstanceAs (Decidable (_ ≤ _))

/-- The calls that are left when `n` have been carried. -/
def after (n : ℕ) : List ℕ → List ℕ
  | [] => []
  | k :: ks => if n = 0 then k :: ks else after (n - k) ks

@[simp] theorem carries_zero : Carries ks 0 := Nat.zero_le _

theorem not_carries_nil (hn : 0 < n) : ¬ Carries [] n := Nat.not_le.mpr hn

theorem carries_cons (hn : 0 < n) : Carries (k :: ks) n ↔ 0 < k ∧ Carries ks (n - k) := by
  unfold Carries
  by_cases hk : 0 < k
  · rw [List.takeWhile_cons_of_pos (by simpa using hk), List.sum_cons, Nat.sub_le_iff_le_add']
    exact (and_iff_right hk).symm
  · rw [List.takeWhile_cons_of_neg (by simpa using hk)]
    simp [hk, Nat.ne_of_gt hn]

@[simp] theorem after_zero : after 0 ks = ks := by
  cases ks <;> rfl

theorem after_cons (hn : 0 < n) : after n (k :: ks) = after (n - k) ks := if_neg (Nat.ne_of_gt hn)

theorem after_suffix (n : ℕ) (ks : List ℕ) : after n ks <:+ ks := by
  induction ks generalizing n with
  | nil => exact List.suffix_rfl
  | cons k ks ih =>
    rw [after]
    split
    · exact List.suffix_rfl
    · exact (ih _).trans (List.suffix_cons k ks)

/-- Calls that each move something carry as much as there are of them. -/
theorem carries_of_pos (hpos : ∀ k ∈ ks, 0 < k) (hn : n ≤ ks.length) : Carries ks n := by
  have hall : ks.takeWhile (0 < ·) = ks := List.takeWhile_eq_self_iff.mpr (by simpa using hpos)
  rw [Carries, hall]
  exact hn.trans (List.length_le_sum_of_one_le ks hpos)

theorem length_le_after (hpos : ∀ k ∈ ks, 0 < k) : ks.length ≤ n + (after n ks).length := by
  induction ks generalizing n with
  | nil => exact Nat.zero_le _
  | cons k ks ih =>
    have hk := hpos k (List.mem_cons_self ..)
    rw [after]
    split
    · exact Nat.le_add_left _ _
    · have hrest := ih (n := n - k) fun k hk => hpos k (List.mem_cons_of_mem _ hk)
      rw [List.length_cons]
      omega

end Pieces

namespace Redesk.Service
open Pieces

structure IpcMessage where
  payload : Bytes := []
  deriving DecidableEq, Repr

structure IpcReply where
  payload : Bytes := []
  deriving DecidableEq, Repr

/-- Who is at the other end, as the system reports it. -/
structure PeerIdentity where
  authenticated : Bool := false
  uid : UInt32 := 0
  pid : UInt32 := 0
  descriptor : String := ""
  deriving DecidableEq, Repr

abbrev IpcMessageHandler := PeerIdentity → IpcMessage → IpcReply

structure Config where
  maxMessageBytes : ℕ := 2 ^ 20

def kFrameHeaderBytes : ℕ := 4

/-- A connection: what the peer sends and what it has been sent. Each read or write moves at most as
many bytes as the next entry of its list says; where that is none, it is an error or the end. -/
structure Conn where
  input : Bytes := []
  reads : List ℕ := []
  output : Bytes := []
  writes : List ℕ := []
  deriving DecidableEq, Repr

/-- The loop of `ReadExact`: the bytes, if all `n` are there, and what the reads have left. -/
def readLoop (n : ℕ) (got input : Bytes) : List ℕ → Option Bytes × Bytes × List ℕ
  | [] => (if got.length < n then none else some got, input, [])
  | k :: reads =>
    if got.length < n then
      let r := min k (min (n - got.length) input.length)
      if r = 0 then (none, input, reads)
      else readLoop n (got ++ input.take r) (input.drop r) reads
    else (some got, input, k :: reads)

/-- The loop of `WriteExact`: whether all of `buf` went out, and how much of it. -/
def writeLoop (buf : Bytes) (put : ℕ) : List ℕ → Bool × ℕ × List ℕ
  | [] => (!decide (put < buf.length), put, [])
  | k :: writes =>
    if put < buf.length then
      let w := min k (buf.length - put)
      if w = 0 then (false, put, writes) else writeLoop buf (put + w) writes
    else (true, put, k :: writes)

namespace Conn

def readExact (c : Conn) (n : ℕ) : Option Bytes × Conn :=
  let (buf, input, reads) := readLoop n [] c.input c.reads
  (buf, { c with input := input, reads := reads })

def writeExact (c : Conn) (buf : Bytes) : Bool × Conn :=
  let (ok, put, writes) := writeLoop buf 0 c.writes
  (ok, { c with output := c.output ++ buf.take put, writes := writes })

end Conn

/-- The length of the reply in 32 bits, then that many bytes of it. -/
def writeReply (reply : IpcReply) (conn : Conn) : Conn :=
  let outLen := reply.payload.length % 2 ^ 32
  let (ok, conn) := conn.writeExact (Endian.encode kFrameHeaderBytes outLen)
  if !ok then conn
  else if outLen ≠ 0 then (conn.writeExact (reply.payload.take outLen)).2
  else conn

/-- Serves one connection. The messages are those that an installed handler was called with. -/
def serveConnection (config : Config) (handler : Option IpcMessageHandler) (peer : PeerIdentity)
    (conn : Conn) : List IpcMessage × Conn :=
  if !peer.authenticated then ([], conn)
  else
    match conn.readExact kFrameHeaderBytes with
    | (none, conn) => ([], conn)
    | (some header, conn) =>
      let len := Endian.decode header
      if len = 0 ∨ len > config.maxMessageBytes then ([], conn)
      else
        match conn.readExact len with
        | (none, conn) => ([], conn)
        | (some payload, conn) =>
          let msg : IpcMessage := { payload := payload }
          match handler with
          | some handler => ([msg], writeReply (handler peer msg) conn)
          | none => ([], writeReply {} conn)

/-- A reply as it is framed. -/
def replyFrame (p : Bytes) : Bytes := Endian.encode kFrameHeaderBytes p.length ++ p

variable {conn : Conn} {config : Config} {handler : IpcMessageHandler} {peer : PeerIdentity}
  {msg : IpcMessage} {got input buf p : Bytes} {put n m : ℕ} {reads writes : List ℕ}

/-- So many bytes come in before a read fails. -/
def Conn.Arrives (c : Conn) (n : ℕ) : Prop := n ≤ c.input.length ∧ Carries c.reads n

/-- The connection when `n` bytes of it have been read. -/
def Conn.skip (c : Conn) (n : ℕ) : Conn :=
  { c with input := c.input.drop n, reads := after n c.reads }

/-- The loop reads what is still wanted when so much comes in, and fails when it does not. -/
theorem readLoop_cases (input : Bytes) (reads : List ℕ) (hm : got.length + m = n) :
    (m ≤ input.length ∧ Carries reads m) ∧
        readLoop n got input reads = (some (got ++ input.take m), input.drop m, after m reads) ∨
      ¬ (m ≤ input.length ∧ Carries reads m) ∧ (readLoop n got input reads).1 = none := by
  induction reads generalizing got input m with
  | nil =>
    rcases Nat.eq_zero_or_pos m with rfl | hpos
    · exact .inl ⟨⟨Nat.zero_le _, carries_zero⟩, by simp [readLoop, ← hm]⟩
    · refine .inr ⟨fun h => not_carries_nil hpos h.2, ?_⟩
      rw [readLoop, if_pos (by omega)]
  | cons k reads ih =>
    rw [readLoop]
    split
    · rename_i hlt
      have hpos : 0 < m := by omega
      have hwant : n - got.length = m := by omega
      rw [hwant, carries_cons hpos, after_cons hpos]
      generalize hr : min k (min m input.length) = r
      by_cases hzero : r = 0
      · rw [if_pos hzero]
        exact .inr ⟨by omega, rfl⟩
      · rw [if_neg hzero]
        have hsum : (got ++ input.take r).length + (m - r) = n := by
          rw [List.length_append, List.length_take]
          omega
        have hrest := ih (input.drop r) hsum
        rw [List.length_drop] at hrest
        by_cases hin : m ≤ input.length
        · have hleft : m - r = m - k := by omega
          have htake : input.take r ++ (input.drop r).take (m - r) = input.take m := by
            rw [← List.take_add, Nat.add_sub_of_le (by omega)]
          have hdrop : (input.drop r).drop (m - r) = input.drop m := by
            rw [List.drop_drop, Nat.add_sub_of_le (by omega)]
          rcases hrest with ⟨⟨-, hc⟩, hloop⟩ | ⟨hn, hloop⟩
          · refine .inl ⟨⟨hin, by omega, hleft ▸ hc⟩, ?_⟩
            rw [hloop, List.append_assoc, htake, hdrop, hleft]
          · exact .inr ⟨fun h => hn ⟨by omega, hleft.symm ▸ h.2.2⟩, hloop⟩
        · -- a piece that is cut short by the end of the input leaves too little for the rest
          rcases hrest with ⟨⟨hshort, -⟩, -⟩ | ⟨-, hloop⟩
          · exact absurd hshort (by omega)
          · exact .inr ⟨fun h => hin h.1, hloop⟩
    · have hnone : m = 0 := by omega
      subst hnone
      exact .inl ⟨⟨Nat.zero_le _, carries_zero⟩, by simp⟩

/-- The loop writes all that is left when the writes carry it, and stops short when they do not. -/
theorem writeLoop_cases (writes : List ℕ) (hm : put + m = buf.length) :
    Carries writes m ∧ writeLoop buf put writes = (true, buf.length, after m writes) ∨
      ¬ Carries writes m ∧ (writeLoop buf put writes).1 = false ∧
        (writeLoop buf put writes).2.1 < buf.length := by
  induction writes generalizing put m with
  | nil =>
    rcases Nat.eq_zero_or_pos m with rfl | hpos
    · exact .inl ⟨carries_zero, by simp [writeLoop, ← hm]⟩
    · have hlt : put < buf.length := by omega
      exact .inr ⟨not_carries_nil hpos, by simp [writeLoop, hlt], hlt⟩
  | cons k writes ih =>
    rw [writeLoop]
    split
    · rename_i hlt
      have hpos : 0 < m := by omega
      have hwant : buf.length - put = m := by omega
      rw [hwant, carries_cons hpos, after_cons hpos]
      by_cases hw : min k m = 0
      · rw [if_pos hw]
        exact .inr ⟨by omega, rfl, hlt⟩
      · rw [if_neg hw]
        have hleft : m - min k m = m - k := by omega
        have hsum : put + min k m + (m - k) = buf.length := by omega
        have hrest := ih hsum
        rw [and_iff_right (by omega : 0 < k)]
        exact hrest
    · have hnone : m = 0 := by omega
      subst hnone
      exact .inl ⟨carries_zero, by rw [after_zero, ← hm, Nat.add_zero]⟩

theorem readExact_cases (conn : Conn) (n : ℕ) :
    conn.Arrives n ∧ conn.readExact n = (some (conn.input.take n), conn.skip n) ∨
      ¬ conn.Arrives n ∧ (conn.readExact n).1 = none := by
  have hm : ([] : Bytes).length + n = n := Nat.zero_add n
  rcases readLoop_cases conn.input conn.reads hm with ⟨harrives, hloop⟩ | ⟨hn, hloop⟩
  · refine .inl ⟨harrives, ?_⟩
    rw [Conn.readExact, hloop]
    rfl
  · exact .inr ⟨hn, hloop⟩

theorem output_of_readExact {conn' : Conn} {r : Option Bytes} (h : conn.readExact n = (r, conn')) :
    conn'.output = conn.output := by
  have hc : conn' = (conn.readExact n).2 := by rw [h]
  rw [hc]
  rfl

theorem writeExact_cases (conn : Conn) (buf : Bytes) :
    Carries conn.writes buf.length ∧ conn.writeExact buf =
        (true, { conn with output := conn.output ++ buf, writes := after buf.length conn.writes }) ∨
      ¬ Carries conn.writes buf.length ∧ (conn.writeExact buf).1 = false ∧
        ∃ put < buf.length, (conn.writeExact buf).2.output = conn.output ++ buf.take put := by
  rcases writeLoop_cases conn.writes (Nat.zero_add buf.length) with
    ⟨hc, hloop⟩ | ⟨hn, hfail, hlt⟩
  · refine .inl ⟨hc, ?_⟩
    rw [Conn.writeExact, hloop]
    simp
  · exact .inr ⟨hn, hfail, _, hlt, rfl⟩

/-- The writes carry the frame of a reply of `n` bytes: its header, and then the rest. -/
def CarriesReply (writes : List ℕ) (n : ℕ) : Prop :=
  Carries writes kFrameHeaderBytes ∧ Carries (after kFrameHeaderBytes writes) n

/-- A reply is written as its frame, and no further than the writes carry it. -/
theorem output_writeReply (conn : Conn) (hlen : p.length < 2 ^ 32) : ∃ sent,
    (writeReply { payload := p } conn).output = conn.output ++ sent ∧ sent <+: replyFrame p ∧
      (sent = replyFrame p ↔ CarriesReply conn.writes p.length) := by
  have hmod : p.length % 2 ^ 32 = p.length := Nat.mod_eq_of_lt hlen
  have hheader : (Endian.encode kFrameHeaderBytes p.length).length = kFrameHeaderBytes :=
    Endian.length_encode _ _
  simp only [writeReply, hmod]
  rcases writeExact_cases conn (Endian.encode kFrameHeaderBytes p.length) with
    ⟨hc, hwrite⟩ | ⟨hn, hfail, put, hput, hout⟩
  · rw [hheader] at hc hwrite
    simp only [hwrite, Bool.not_true, Bool.false_eq_true, if_false]
    split
    · rw [List.take_length]
      rcases writeExact_cases { conn with
          output := conn.output ++ Endian.encode kFrameHeaderBytes p.length
          writes := after kFrameHeaderBytes conn.writes } p with
        ⟨hc', hwrite'⟩ | ⟨hn', -, put, hput, hout'⟩
      · refine ⟨replyFrame p, ?_, List.prefix_rfl, iff_of_true rfl ⟨hc, hc'⟩⟩
        rw [hwrite', replyFrame, List.append_assoc]
      · refine ⟨Endian.encode kFrameHeaderBytes p.length ++ p.take put, ?_, ?_, ?_⟩
        · rw [hout', List.append_assoc]
        · exact (List.prefix_append_right_inj _).mpr (List.take_prefix put p)
        · refine iff_of_false (fun hall => ?_) fun h => hn' h.2
          have hshort := congrArg List.length (List.append_cancel_left hall)
          rw [List.length_take] at hshort
          omega
    · rename_i hnil
      obtain rfl := List.length_eq_zero_iff.mp (not_not.mp hnil)
      refine ⟨_, rfl, ?_, ?_⟩
      · rw [replyFrame, List.append_nil]
      · exact iff_of_true (List.append_nil _).symm ⟨hc, carries_zero⟩
  · rw [hheader] at hn hput
    simp only [hfail, Bool.not_false, if_true]
    refine ⟨_, hout, ?_, ?_⟩
    · exact (List.take_prefix put _).trans (List.prefix_append ..)
    · refine iff_of_false (fun hall => ?_) fun h => hn h.1
      have hshort := congrArg List.length hall
      rw [replyFrame, List.length_take, List.length_append, hheader] at hshort
      omega

/-- No write fails before `n` bytes have gone out. -/
def Writable (n : ℕ) (writes : List ℕ) : Prop := (∀ k ∈ writes, 0 < k) ∧ n ≤ writes.length

theorem carriesReply_of_writable (hw : Writable (kFrameHeaderBytes + n) writes) :
    CarriesReply writes n := by
  obtain ⟨hpos, hlen⟩ := hw
  have hleft := length_le_after (n := kFrameHeaderBytes) hpos
  have hpos' (k : ℕ) (hk : k ∈ after kFrameHeaderBytes writes) : 0 < k :=
    hpos k ((after_suffix _ _).subset hk)
  exact ⟨carries_of_pos hpos (by omega), carries_of_pos hpos' (by omega)⟩

end Redesk.Service

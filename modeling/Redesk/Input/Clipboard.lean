import Redesk.Common.Types
import Redesk.Machine.Nested
import Redesk.Machine.Past

/-! The clipboard of the default build: an entry for each kind of data, and a callback that is told
every change and may change the clipboard again. -/
namespace Redesk.Input
open Machine

inductive ClipboardKind where
  | text | image | uriList
  deriving DecidableEq, Repr

structure ClipboardData where
  kind : ClipboardKind := .text
  text : String := ""
  imageBytes : Bytes := []
  imageMime : String := ""
  deriving DecidableEq, Repr

instance : Inhabited ClipboardData := ⟨{}⟩

/-- Of the callback it is kept whether there is one. -/
structure StubClipboardSync where
  store : List ClipboardData := []
  changeCb : Bool := false
  deriving DecidableEq, Repr

namespace StubClipboardSync

def get (c : StubClipboardSync) (kind : ClipboardKind) : Result ClipboardData :=
  match c.store.find? fun d => d.kind = kind with
  | some d => .good d
  | none => .fail .notFound "clipboard empty for kind"

/-- The loop of `set`: the entries with the first of its kind replaced, if there is one. -/
def overwrite (data : ClipboardData) : List ClipboardData → Option (List ClipboardData)
  | [] => none
  | d :: ds => if d.kind = data.kind then some (data :: ds) else (overwrite data ds).map (d :: ·)

/-- What `set` does before it calls the callback. -/
def write (c : StubClipboardSync) (data : ClipboardData) : StubClipboardSync :=
  match overwrite data c.store with
  | some store => { c with store := store }
  | none => { c with store := c.store ++ [data] }

inductive Op where
  | get (kind : ClipboardKind)
  | set (data : ClipboardData)
  | setChangeCallback (cb : Bool)
  deriving DecidableEq, Repr

/-- What a call returns, and what the callback is called with. -/
structure Reply where
  status : Status := .success
  got : Option ClipboardData := none
  fired : List ClipboardData := []
  deriving DecidableEq, Repr

def reply (res : Result ClipboardData) : Reply where
  status := res.status
  got := if res.status.ok then some res.value else none

def step (c : StubClipboardSync) : Op → Reply × StubClipboardSync
  | .get kind => (reply (c.get kind), c)
  | .set data =>
    let c := c.write data
    ({ fired := if c.changeCb then [data] else [] }, c)
  | .setChangeCallback cb => ({}, { c with changeCb := cb })

abbrev Call := Machine.Call StubClipboardSync Op Reply

abbrev Run : List Call → StubClipboardSync → Prop := Machine.Run step {}

/-- One call while the callback runs inside it. A callback that replaces itself is not meant. -/
def enter (c : StubClipboardSync) (op : Op) (cb : Callback StubClipboardSync Op Reply) :
    List Call × StubClipboardSync :=
  match op with
  | .get kind => ([⟨c, op, reply (c.get kind), c⟩], c)
  | .set data =>
    let c' := c.write data
    if c'.changeCb then
      let (log, c'') := cb c'
      (⟨c, op, { fired := [data] }, c'⟩ :: log, c'')
    else ([⟨c, op, {}, c'⟩], c')
  | .setChangeCallback b =>
    let c' := { c with changeCb := b }
    ([⟨c, op, {}, c'⟩], c')

/-- The data of a kind that a call sets. -/
def setOf (kind : ClipboardKind) (c : Call) : Option ClipboardData :=
  match c.op with
  | .set data => if data.kind = kind then some data else none
  | _ => none

/-- Whether a call installs the callback or takes it away. -/
def installs (c : Call) : Option Bool :=
  match c.op with
  | .setChangeCallback cb => some cb
  | _ => none

/-- What a clipboard should return: the latest data of a kind is found, every change is told once,
and nothing else is told. -/
def Answered (a : List Call) (c : Call) : Prop :=
  match c.op with
  | .get kind => c.res = match latest (setOf kind) a with
    | some data => { got := some data }
    | none => { status := .error .notFound "clipboard empty for kind" }
  | .set data => c.res = { fired := if (latest installs a).getD false then [data] else [] }
  | .setChangeCallback _ => c.res = {}

/-- What holds however the callback uses the clipboard. -/
structure Mirrored (h : List Call) (c : StubClipboardSync) : Prop where
  answered : Along Answered h
  single : (c.store.map (·.kind)).Nodup
  /-- The clipboard holds the latest data of each kind and nothing else. -/
  holds : ∀ data, data ∈ c.store ↔ latest (setOf data.kind) h = some data

variable {c : StubClipboardSync} {data d : ClipboardData} {kind : ClipboardKind}
  {ds ds' : List ClipboardData} {h : List Call}

theorem kinds_overwrite (ho : overwrite data ds = some ds') :
    ds'.map (·.kind) = ds.map (·.kind) := by
  induction ds generalizing ds' with
  | nil => cases ho
  | cons d ds ih =>
    unfold overwrite at ho
    split at ho
    · rename_i hd
      cases ho
      rw [List.map_cons, List.map_cons, hd]
    · obtain ⟨ds₁, hds₁, rfl⟩ := Option.map_eq_some_iff.mp ho
      rw [List.map_cons, List.map_cons, ih hds₁]

theorem overwrite_eq_none : overwrite data ds = none ↔ data.kind ∉ ds.map (·.kind) := by
  induction ds with
  | nil => simp [overwrite]
  | cons d ds ih =>
    unfold overwrite
    by_cases hd : d.kind = data.kind
    · simp [hd]
    · rw [if_neg hd, Option.map_eq_none_iff, ih]
      simp [Ne.symm hd]

theorem mem_overwrite (hn : (ds.map (·.kind)).Nodup) (ho : overwrite data ds = some ds') :
    d ∈ ds' ↔ d = data ∨ d.kind ≠ data.kind ∧ d ∈ ds := by
  induction ds generalizing ds' with
  | nil => cases ho
  | cons e ds ih =>
    rw [List.map_cons, List.nodup_cons] at hn
    unfold overwrite at ho
    split at ho
    · rename_i he
      cases ho
      have hrest : d ∈ ds → d.kind ≠ data.kind := by
        intro hd hkind
        rw [← he] at hkind
        exact hn.1 (hkind ▸ List.mem_map_of_mem hd)
      constructor
      · intro hd
        rcases List.mem_cons.mp hd with rfl | hd
        · exact .inl rfl
        · exact .inr ⟨hrest hd, List.mem_cons_of_mem e hd⟩
      · rintro (rfl | ⟨hkind, hd⟩)
        · exact List.mem_cons_self
        · rcases List.mem_cons.mp hd with rfl | hd
          · exact absurd he hkind
          · exact List.mem_cons_of_mem _ hd
    · rename_i he
      obtain ⟨ds₁, hds₁, rfl⟩ := Option.map_eq_some_iff.mp ho
      rw [List.mem_cons, List.mem_cons, ih hn.2 hds₁]
      constructor
      · rintro (rfl | rfl | ⟨hkind, hd⟩)
        · exact .inr ⟨he, .inl rfl⟩
        · exact .inl rfl
        · exact .inr ⟨hkind, .inr hd⟩
      · rintro (rfl | ⟨hkind, rfl | hd⟩)
        · exact .inr (.inl rfl)
        · exact .inl rfl
        · exact .inr (.inr ⟨hkind, hd⟩)

/-- After a write the data is there instead of what was there of its kind. -/
theorem mem_write (hn : (c.store.map (·.kind)).Nodup) :
    d ∈ (c.write data).store ↔ d = data ∨ d.kind ≠ data.kind ∧ d ∈ c.store := by
  unfold write
  cases ho : overwrite data c.store with
  | some ds => exact mem_overwrite hn ho
  | none =>
    have hnew : d ∈ c.store → d.kind ≠ data.kind := by
      intro hd hkind
      exact overwrite_eq_none.mp ho (hkind ▸ List.mem_map_of_mem hd)
    rw [List.mem_append, List.mem_singleton, or_comm]
    exact or_congr_right ⟨fun hd => ⟨hnew hd, hd⟩, fun hd => hd.2⟩

theorem nodup_write (hn : (c.store.map (·.kind)).Nodup) :
    ((c.write data).store.map (·.kind)).Nodup := by
  unfold write
  cases ho : overwrite data c.store with
  | some ds => rwa [kinds_overwrite ho]
  | none =>
    have hnew : data.kind ∉ c.store.map (·.kind) := overwrite_eq_none.mp ho
    rw [List.map_append, List.map_singleton, List.nodup_append]
    refine ⟨hn, List.nodup_singleton _, ?_⟩
    rintro kind hkind kind' hkind' rfl
    rw [List.mem_singleton.mp hkind'] at hkind
    exact hnew hkind

@[simp] theorem changeCb_write : (c.write data).changeCb = c.changeCb := by
  unfold write
  split <;> rfl

theorem find?_eq_some_iff (hn : (ds.map (·.kind)).Nodup) :
    ds.find? (fun d => d.kind = kind) = some data ↔ data ∈ ds ∧ data.kind = kind := by
  constructor
  · intro hf
    exact ⟨List.mem_of_find?_eq_some hf, by simpa using List.find?_some hf⟩
  · rintro ⟨hmem, hkind⟩
    cases hf : ds.find? fun d => d.kind = kind with
    | none => simpa [hkind] using List.find?_eq_none.mp hf data hmem
    | some d =>
      have hd : d.kind = kind := by simpa using List.find?_some hf
      have hmem' : d ∈ ds := List.mem_of_find?_eq_some hf
      rw [List.inj_on_of_nodup_map hn hmem' hmem (hd.trans hkind.symm)]

theorem kind_of_latest (hl : latest (setOf kind) h = some data) : data.kind = kind := by
  induction h using List.reverseRecOn with
  | nil => cases hl
  | append_singleton h c ih =>
    rw [latest_snoc] at hl
    cases hs : setOf kind c with
    | none =>
      rw [hs] at hl
      exact ih hl
    | some d =>
      rw [hs] at hl
      cases hl
      unfold setOf at hs
      split at hs
      · split at hs
        · rename_i hkind
          cases hs
          exact hkind
        · cases hs
      · cases hs

/-- What a run says about the clipboard it ends with. -/
structure Kept (h : List Call) (c : StubClipboardSync) : Prop where
  single : (c.store.map (·.kind)).Nodup
  holds : ∀ data, data ∈ c.store ↔ latest (setOf data.kind) h = some data
  changeCb : c.changeCb = (latest installs h).getD false

theorem kept_run (hr : Run h c) : Kept h c := by
  induction hr with
  | nil => exact ⟨List.nodup_nil, by simp, rfl⟩
  | @snoc h c hr op ih =>
    obtain ⟨hsingle, hholds, hcb⟩ := ih
    cases op with
    | get kind => exact ⟨hsingle, by simpa [setOf, step] using hholds,
        by simpa [installs, step] using hcb⟩
    | set data =>
      refine ⟨nodup_write hsingle, ?_, ?_⟩
      · intro d
        change d ∈ (c.write data).store ↔ _
        rw [mem_write hsingle, latest_snoc, hholds]
        by_cases hkind : data.kind = d.kind
        · simp [setOf, hkind, eq_comm]
        · have hne : d ≠ data := by
            rintro rfl
            exact hkind rfl
          simp [setOf, hkind, Ne.symm hkind, hne]
      · change (c.write data).changeCb = _
        rw [changeCb_write, latest_snoc, hcb]
        rfl
    | setChangeCallback b =>
      refine ⟨hsingle, by simpa [setOf, step] using hholds, ?_⟩
      rw [latest_snoc]
      rfl

theorem Kept.answered (hk : Kept h c) (op : Op) : Answered h (call step c op) := by
  cases op with
  | get kind =>
    have hfind : (c.store.find? fun d => d.kind = kind) = latest (setOf kind) h := by
      ext data
      rw [find?_eq_some_iff hk.single, hk.holds]
      constructor
      · rintro ⟨hlatest, rfl⟩
        exact hlatest
      · intro hlatest
        have hkind : data.kind = kind := kind_of_latest hlatest
        exact ⟨hkind ▸ hlatest, hkind⟩
    unfold Answered
    simp only [call_op, call_res, step, reply, StubClipboardSync.get, hfind]
    cases latest (setOf kind) h with
    | some data => rfl
    | none => rfl
  | set data =>
    unfold Answered
    simp only [call_op, call_res, step, changeCb_write, hk.changeCb]
  | setChangeCallback b => rfl

/-- The callback may read and change the clipboard while it is told a change. -/
theorem callsBackLast : CallsBackLast step enter := by
  intro cb hcb c op
  cases op with
  | get kind => exact .cons rfl .nil
  | set data =>
    unfold enter
    simp only [changeCb_write]
    by_cases hinstalled : c.changeCb = true
    · have hc : ⟨c, .set data, { fired := [data] }, c.write data⟩ = call step c (.set data) := by
        simp [call, step, hinstalled]
      rw [if_pos hinstalled]
      exact .cons hc (hcb _)
    · have hc : ⟨c, .set data, {}, c.write data⟩ = call step c (.set data) := by
        simp [call, step, hinstalled]
      rw [if_neg hinstalled]
      exact .cons hc .nil
  | setChangeCallback b => exact .cons rfl .nil

/-- A clipboard holds the latest data of each kind and tells every change once, however the callback
that is told uses it. -/
theorem mirrored (ts : List (Nested Op)) :
    Mirrored (execAll enter ts {}).1 (execAll enter ts {}).2 := by
  have hr : Run (execAll enter ts {}).1 (execAll enter ts {}).2 := callsBackLast.run_execAll ts {}
  have hk := kept_run hr
  refine ⟨?_, hk.single, hk.holds⟩
  intro a c b hs
  rw [hs] at hr
  obtain ⟨hpre, hc, -⟩ := hr.split
  rw [hc]
  exact (kept_run hpre).answered c.op

end StubClipboardSync
end Redesk.Input

/-
  Code under its hash.

  An account is coded when it carries its code under the hash of that code, the
  code being one of a set in which no two codes share a hash. As long as only
  coded accounts are written, code is found by its hash wherever an account has
  it: among the loaded accounts, or in the index of the state, which is filled
  when an account is inserted and never pruned. No step takes from the index what
  an account of the state needs, since codes with one hash are equal.
-/
import BlockExecution.Crypto.Keccak.Lemmas
import BlockExecution.Proofs.State.Canonical
import BlockExecution.Proofs.State.Record

namespace BlockExecution

open BlockExecution.Snapshot

theorem keccakEmpty_eq : keccakEmpty = keccak256 [] := by
  rw [keccak256_eq]
  decide +kernel

/-- What a table holds, as the second parts of its entries. -/
theorem Table.values_eq {K V : Type} [Ord K] [Std.TransOrd K] (t : Table K V) :
    t.values = t.toList.map Prod.snd := by
  obtain ⟨⟨m⟩⟩ := t
  induction m using Quotient.ind with
  | _ m =>
    show m.inner.values = (Std.DTreeMap.Internal.Impl.Const.toList m.inner).map Prod.snd
    rw [Std.DTreeMap.Internal.Impl.values_eq_map_snd,
      Std.DTreeMap.Internal.Impl.Const.toList_eq_toListModel_map, List.map_map]
    rfl

theorem Table.mem_values_iff {K V : Type} [Ord K] [Std.TransOrd K] [Std.LawfulEqOrd K]
    (t : Table K V) (v : V) : v ∈ t.values ↔ ∃ k : K, t[k]? = some v := by
  rw [values_eq, List.mem_map]
  constructor
  · rintro ⟨⟨k, v⟩, hmem, rfl⟩
    exact ⟨k, Std.ExtTreeMap.mem_toList_iff_getElem?_eq_some.mp hmem⟩
  · rintro ⟨k, hv⟩
    exact ⟨(k, v), Std.ExtTreeMap.mem_toList_iff_getElem?_eq_some.mpr hv, rfl⟩

variable {codes : Set Bytes}

/-! ## Coded accounts -/

namespace Account

/-- Whether an account carries one of these codes, under its hash. -/
def Coded (codes : Set Bytes) (x : Account) : Prop :=
  x.code ∈ codes ∧ x.codeHash = keccak256 x.code

variable {x y : Account}

/-- The hash tells the code. -/
theorem Coded.code_eq (hinj : Set.InjOn keccak256 codes) (hx : x.Coded codes) (hy : y.Coded codes)
    (h : x.codeHash = y.codeHash) : x.code = y.code :=
  hinj hx.1 hy.1 (by rw [← hx.2, ← hy.2, h])

theorem coded_empty (hempty : [] ∈ codes) : Coded codes {} := ⟨hempty, keccakEmpty_eq⟩

theorem Coded.code_eq_nil (hinj : Set.InjOn keccak256 codes) (hempty : [] ∈ codes)
    (hx : x.Coded codes) (h : x.codeHash = keccakEmpty) : x.code = [] :=
  hx.code_eq hinj (coded_empty hempty) h

end Account

/-- Whether every account is coded. -/
def Snapshot.Coded (codes : Set Bytes) (u : Snapshot) : Prop :=
  ∀ a x, u.account a = some x → x.Coded codes

namespace Snapshot

variable {u : Snapshot}

theorem Coded.setAccount (h : u.Coded codes) (a : Address) {y : Option Account}
    (hy : ∀ x, y = some x → x.Coded codes) : (u.setAccount a y).Coded codes := by
  intro b x hx
  by_cases hb : b = a
  · rw [hb, account_setAccount_self] at hx
    exact hy x hx
  · rw [account_setAccount_of_ne hb] at hx
    exact h b x hx

/-- An account, or the empty one where there is none. -/
theorem Coded.getD (h : u.Coded codes) (hempty : [] ∈ codes) (a : Address) :
    ((u.account a).getD {}).Coded codes := by
  cases hx : u.account a with
  | none => exact Account.coded_empty hempty
  | some x => exact h a x hx

/-- Whether a write that is undone brings back a coded account. -/
def CodedEntry (codes : Set Bytes) : JournalEntry → Prop
  | .account _ previous => ∀ x, previous = some x → x.Coded codes
  | .slot _ _ => True

theorem Coded.rewind (h : u.Coded codes) {entries : List JournalEntry}
    (hentries : ∀ entry ∈ entries, CodedEntry codes entry) : (u.rewind entries).Coded codes := by
  induction entries generalizing u with
  | nil => exact h
  | cons entry older ih =>
    have hentry := hentries entry List.mem_cons_self
    apply ih
    · cases entry with
      | account a previous => exact h.setAccount a hentry
      | slot k previous => exact h
    · exact fun e he => hentries e (List.mem_cons_of_mem _ he)

end Snapshot

/-! ## The index of a state -/

/-- Whether a step puts coded accounts only. -/
def StateStep.Coded (codes : Set Bytes) : StateStep → Prop
  | .insertAccount _ x => x.Coded codes
  | .setStorage _ _ => True
  | .apply c => ∀ (a : Address) (x : Account), c.accounts[a]? = some (some x) → x.Coded codes

namespace WorldState

variable {s : WorldState} {a : Address} {x : Account}

/-- Every account is coded, and code is indexed under its hash. -/
structure Indexed (codes : Set Bytes) (s : WorldState) : Prop where
  coded : ∀ a x, s.account? a = some x → x.Coded codes
  found : ∀ a x, s.account? a = some x → x.hasCode = true →
    s.contracts[x.codeHash]? = some x.code

theorem indexed_empty : Indexed codes ∅ := by
  have hnone : ∀ a, (∅ : WorldState).account? a = none := fun _ =>
    Std.ExtTreeMap.getElem?_empty
  constructor
  · intro a x hx
    rw [hnone] at hx
    cases hx
  · intro a x hx
    rw [hnone] at hx
    cases hx

/-- An insertion may replace code in the index, but by the same code. -/
theorem Indexed.insertAccount (hinj : Set.InjOn keccak256 codes) (h : s.Indexed codes)
    (hx : x.Coded codes) (a : Address) : (s.insertAccount a x).Indexed codes := by
  have hcoded : ∀ b y, (s.insertAccount a x).account? b = some y → y.Coded codes := by
    intro b y hy
    rw [account?_insertAccount] at hy
    split at hy
    · rw [← Option.some.inj hy]
      exact hx
    · exact h.coded b y hy
  refine ⟨hcoded, ?_⟩
  intro b y hy hcode
  have hindex : (s.insertAccount a x).contracts[y.codeHash]? =
      if x.hasCode ∧ x.codeHash = y.codeHash then some x.code
      else s.contracts[y.codeHash]? := by
    show (if x.hasCode then s.contracts.insert x.codeHash x.code else s.contracts)[_]? = _
    by_cases hnew : x.hasCode = true
    · simp only [hnew, if_true, true_and, Table.getElem?_insert_eq]
    · rw [if_neg hnew, if_neg fun h => hnew h.1]
  rw [hindex]
  split
  · rename_i hsame
    rw [hx.code_eq hinj (hcoded b y hy) hsame.2]
  · rename_i hother
    rw [account?_insertAccount] at hy
    split at hy
    · -- The account that was put has code, and is found under its own hash.
      rw [← Option.some.inj hy] at hcode hother
      exact absurd ⟨hcode, rfl⟩ hother
    · exact h.found b y hy hcode

/-- The index is not pruned. -/
theorem Indexed.removeAccount (h : s.Indexed codes) (a : Address) :
    (s.removeAccount a).Indexed codes := by
  have hkept : ∀ b y, (s.removeAccount a).account? b = some y → s.account? b = some y := by
    intro b y hy
    rw [account?_removeAccount] at hy
    split at hy
    · cases hy
    · exact hy
  exact ⟨fun b y hy => h.coded b y (hkept b y hy), fun b y hy => h.found b y (hkept b y hy)⟩

theorem Indexed.setStorage (h : s.Indexed codes) (k : StorageKey) (value : Word) :
    (s.setStorage k value).Indexed codes :=
  ⟨h.coded, h.found⟩

theorem Indexed.apply (hinj : Set.InjOn keccak256 codes) (h : s.Indexed codes) {c : StateChanges}
    (hc : (StateStep.apply c).Coded codes) : (s.apply c).Indexed codes := by
  unfold WorldState.apply
  simp only [Std.ExtTreeMap.foldl_eq_foldl_toList]
  -- Accounts go in first, one after the other, and slots after them.
  refine List.foldlRecOn _ _ ?_ ?_
  · refine List.foldlRecOn _ _ h ?_
    rintro s h ⟨a, x⟩ hmem
    cases x with
    | none => exact h.removeAccount a
    | some x =>
      have hlisted : c.accounts[a]? = some (some x) :=
        Std.ExtTreeMap.mem_toList_iff_getElem?_eq_some.mp hmem
      exact h.insertAccount hinj (hc a x hlisted) a
  · intro s h e _
    split
    · exact h
    · exact h.setStorage e.1 e.2

theorem Indexed.perform (hinj : Set.InjOn keccak256 codes) (h : s.Indexed codes) {step : StateStep}
    (hstep : step.Coded codes) : (s.perform step).Indexed codes := by
  cases step with
  | insertAccount a x => exact h.insertAccount hinj hstep a
  | setStorage k value => exact h.setStorage k value
  | apply c => exact h.apply hinj hstep

theorem indexed_built (hinj : Set.InjOn keccak256 codes) {steps : List StateStep}
    (hsteps : ∀ step ∈ steps, step.Coded codes) : (built steps).Indexed codes :=
  List.foldlRecOn steps perform indexed_empty fun _ h step hstep =>
    h.perform hinj (hsteps step hstep)

end WorldState

/-! ## Accumulators -/

namespace Operation

variable {u : Snapshot} {op : Operation}

/-- Whether an operation leaves a coded account where it puts one of its own making. All others
keep the code of an account, or delete it. -/
def WritesCoded (codes : Set Bytes) (op : Operation) (u : Snapshot) : Prop :=
  match op with
  | .updateAccount a f => (f ((u.account a).getD {})).Coded codes
  | _ => True

theorem WritesCoded.effect (hempty : [] ∈ codes) (hop : op.WritesCoded codes u)
    (h : u.Coded codes) : (op.effect u).Coded codes := by
  have hput : ∀ {y : Account}, y.Coded codes → ∀ x, some y = some x → x.Coded codes := by
    rintro y hy x ⟨⟩
    exact hy
  have hdeleted : ∀ x, (none : Option Account) = some x → x.Coded codes := by
    rintro x ⟨⟩
  cases op with
  | account a => exact h
  | slot k => exact h
  | updateAccount a f => exact h.setAccount a (hput hop)
  | increaseBalance a amount => exact h.setAccount a (hput (h.getD hempty a))
  | setSlot k value => exact h
  | deleteAccount a => exact h.setAccount a hdeleted
  | deleteIfEmpty a =>
    simp only [Operation.effect, Snapshot.clear]
    split
    · exact h.setAccount a hdeleted
    · exact h

/-- What an operation replaces was there. -/
theorem coded_writes (op : Operation) (h : u.Coded codes) :
    ∀ entry ∈ op.writes u, CodedEntry codes entry := by
  have hone : ∀ a, ∀ entry ∈ [JournalEntry.account a (u.account a)], CodedEntry codes entry := by
    intro a entry hentry
    rw [List.mem_singleton.mp hentry]
    exact h a
  intro entry hentry
  cases op with
  | account a => cases hentry
  | slot k => cases hentry
  | updateAccount a f => exact hone a entry hentry
  | increaseBalance a amount => exact hone a entry hentry
  | setSlot k value =>
    rw [List.mem_singleton.mp hentry]
    trivial
  | deleteAccount a => exact hone a entry hentry
  | deleteIfEmpty a =>
    simp only [writes] at hentry
    split at hentry
    · exact hone a entry hentry
    · cases hentry

end Operation

namespace Accumulator

variable {view : WorldView} {w : Accumulator}

/-- The accumulators over a view at which only coded accounts were ever written. -/
inductive CodedReached (codes : Set Bytes) (view : WorldView) : Accumulator → Prop
  | fresh : CodedReached codes view (.ofView view)
  | operation {w : Accumulator} (h : CodedReached codes view w) (op : Operation)
    (hop : op.WritesCoded codes w.values) : CodedReached codes view (op.execution.runOn w).2
  | revertTo {w : Accumulator} (h : CodedReached codes view w) (c : Checkpoint) :
    CodedReached codes view (w.revertTo c)
  | commit {w : Accumulator} (h : CodedReached codes view w) : CodedReached codes view w.commit
  | forget {w : Accumulator} (h : CodedReached codes view w) (a : Address) :
    CodedReached codes view (w.forget a)
  | importChanges {w source : Accumulator} (h : CodedReached codes view w)
    (hsource : CodedReached codes view source) : CodedReached codes view (w.importChanges source)
  | importPrior {w source : Accumulator} (h : CodedReached codes view w)
    (hsource : CodedReached codes view source) : CodedReached codes view (w.importPrior source)

theorem CodedReached.reached (h : CodedReached codes view w) : Reached view w := by
  induction h with
  | fresh => exact .fresh
  | operation _ op _ ih => exact .operation ih op
  | revertTo _ c ih => exact .revertTo ih c
  | commit _ ih => exact .commit ih
  | forget _ a ih => exact .forget ih a
  | importChanges _ _ ih ihsource => exact .importChanges ih ihsource
  | importPrior _ _ ih ihsource => exact .importPrior ih ihsource

/-- Every account is coded, and so is every one that an undone write would bring back. -/
structure HoldsCoded (codes : Set Bytes) (w : Accumulator) : Prop where
  values : w.values.Coded codes
  journal : ∀ entry ∈ w.journal, CodedEntry codes entry

theorem HoldsCoded.operation (hempty : [] ∈ codes) (hs : w.Sound) (h : w.HoldsCoded codes)
    {op : Operation} (hop : op.WritesCoded codes w.values) :
    (op.execution.runOn w).2.HoldsCoded codes := by
  cases hfault : w.base.fault? op.cell with
  | some e =>
    rw [op.isUse.fails hs hfault]
    exact h
  | none =>
    obtain ⟨w', hrun, hused⟩ := op.isUse.runs hs hfault
    have hjournal := (op.records w hs hfault).journal
    rw [hrun] at hjournal ⊢
    constructor
    · rw [hused.values]
      exact hop.effect hempty h.values
    · rw [hjournal]
      intro entry hentry
      rcases List.mem_append.mp hentry with hnew | hold
      · exact op.coded_writes h.values entry hnew
      · exact h.journal entry hold

theorem HoldsCoded.revertTo (hs : w.Sound) (h : w.HoldsCoded codes) (c : Checkpoint) :
    (w.revertTo c).HoldsCoded codes := by
  have hback := rewound_revertTo_depth hs c
  constructor
  · rw [hback.values]
    exact h.values.rewind fun entry hentry => h.journal entry (List.mem_of_mem_take hentry)
  · rw [hback.journal]
    exact fun entry hentry => h.journal entry (List.mem_of_mem_drop hentry)

theorem HoldsCoded.forget (hview : w.base.values.Coded codes) (h : w.HoldsCoded codes)
    (a : Address) : (w.forget a).HoldsCoded codes := by
  constructor
  · intro b x hx
    by_cases hb : b = a
    · rw [values_forget_of_address w (c := .account b) hb] at hx
      exact hview b x hx
    · rw [values_forget_of_ne w (c := .account b) hb] at hx
      exact h.values b x hx
  · exact fun entry hentry => h.journal entry (List.mem_filter.mp hentry).1

theorem HoldsCoded.importChanges {source : Accumulator} (hsource : source.Sound)
    (hbase : source.base = w.base) (h : w.HoldsCoded codes) (h' : source.HoldsCoded codes) :
    (w.importChanges source).HoldsCoded codes where
  values b x hx := by
    by_cases hb : Cell.account b ∈ source.changed
    · rw [values_importChanges_of_changed (w := w) hsource hb] at hx
      exact h'.values b x hx
    · rw [values_importChanges_of_not_changed hsource hbase hb] at hx
      exact h.values b x hx
  journal := h.journal

/-- Going along the history of an accumulator over a view of coded accounts. -/
theorem CodedReached.holdsCoded (hempty : [] ∈ codes) (hview : view.values.Coded codes)
    (h : CodedReached codes view w) : w.HoldsCoded codes := by
  induction h with
  | fresh => exact ⟨hview, fun entry hentry => by cases hentry⟩
  | operation hw op hop ih => exact ih.operation hempty hw.reached.sound_base.1 hop
  | revertTo hw c ih => exact ih.revertTo hw.reached.sound_base.1 c
  | commit hw ih => exact ⟨ih.values, fun entry hentry => by cases hentry⟩
  | forget hw a ih =>
    have hbase := hw.reached.sound_base.2
    exact ih.forget (hbase ▸ hview) a
  | importChanges hw hsource ih ihsource =>
    obtain ⟨hs, hbase⟩ := hsource.reached.sound_base
    exact ih.importChanges hs (hbase.trans hw.reached.sound_base.2.symm) ihsource
  | importPrior hw hsource ih _ =>
    obtain ⟨hs, hbase⟩ := hsource.reached.sound_base
    refine ⟨?_, ih.journal⟩
    rw [values_importPrior hs (hbase.trans hw.reached.sound_base.2.symm)]
    exact ih.values

/-- Accounts that are loaded are searched first, and the view is asked for code that none of them
has. -/
theorem codeByHash_eq (w : Accumulator) {codeHash : Hash} (hcode : codeHash ≠ keccakEmpty) :
    (∃ a x, w.values.account a = some x ∧ x.codeHash = codeHash ∧
      w.codeByHash codeHash = .ok x.code) ∨
    (∀ a ∈ w.accounts, ∀ x, w.values.account a = some x → x.codeHash ≠ codeHash) ∧
      w.codeByHash codeHash =
        match w.base.code codeHash with
        | .error e => .error e
        | .ok (some code) => .ok code
        | .ok none => .error (.codeUnavailable codeHash) := by
  unfold codeByHash
  rw [if_neg hcode]
  split
  · rename_i x hfound
    obtain ⟨u, hmem, hx⟩ := List.exists_of_findSome?_eq_some hfound
    obtain ⟨a, hu⟩ := (Table.mem_values_iff _ _).mp hmem
    obtain ⟨hupdated, hhash⟩ := Option.filter_eq_some_iff.mp hx
    left
    exact ⟨a, x, (account_values_of_entry hu).trans hupdated, beq_iff_eq.mp hhash, rfl⟩
  · rename_i hnone
    right
    refine ⟨?_, rfl⟩
    intro a ha x hx hhash
    obtain ⟨u, hu⟩ := (Table.mem_iff_exists _ _).mp ha
    rw [account_values_of_entry hu] at hx
    have hpassed := List.findSome?_eq_none_iff.mp hnone u
      ((Table.mem_values_iff _ _).mpr ⟨a, hu⟩)
    rw [hx, Option.filter_some, if_pos (beq_iff_eq.mpr hhash)] at hpassed
    cases hpassed

/-- Over an indexed state, the code of every account that there is now is found under its hash,
whether the account is loaded or not. -/
theorem CodedReached.codeByHash {s : WorldState} (hinj : Set.InjOn keccak256 codes)
    (hempty : [] ∈ codes) (hindex : s.Indexed codes) (h : CodedReached codes s.view w)
    {a : Address} {x : Account} (hx : w.values.account a = some x) :
    w.codeByHash x.codeHash = .ok x.code := by
  have hview : s.view.values.Coded codes := hindex.coded
  have hcoded := (h.holdsCoded hempty hview).values
  have hbase := h.reached.sound_base.2
  by_cases hcode : x.codeHash = keccakEmpty
  · have hnil : x.code = [] := (hcoded a x hx).code_eq_nil hinj hempty hcode
    unfold Accumulator.codeByHash
    rw [if_pos hcode, hnil]
  · rcases codeByHash_eq w hcode with ⟨b, y, hy, hhash, hfound⟩ | ⟨hnone, hasked⟩
    · rw [hfound, (hcoded b y hy).code_eq hinj (hcoded a x hx) hhash]
    · -- The account is not loaded, so it is an account of the state.
      have hunloaded : Cell.account a ∉ w.loaded := fun ha => hnone a ha x hx rfl
      have hstate : s.account? a = some x := by
        have hvalue : w.values.account a = w.base.values.account a :=
          agreeAt_base_of_not_loaded hunloaded
        rw [hx, hbase] at hvalue
        exact hvalue.symm
      have hkept : w.base.code x.codeHash = .ok s.contracts[x.codeHash]? := by rw [hbase]; rfl
      rw [hasked, hkept, hindex.found a x hstate (bne_iff_ne.mpr hcode)]

end Accumulator

/-! ## States and their accumulators -/

/-- A state that steps built from nothing, with coded accounts only, is canonical: it holds no slot
that is zero, its slots under their addresses are those that the steps lead to, no address is listed
there without a slot, and whatever state else came about so with the same answers has the same
accounts and slots. Over it code is found by its hash: any accumulator that only coded accounts were
written to gives the code of every account that it reads, and before it reads it. -/
theorem WorldState.built_canonical (hinj : Set.InjOn keccak256 codes) (hempty : [] ∈ codes)
    {steps : List StateStep} (hsteps : ∀ step ∈ steps, step.Coded codes) :
    (∀ k : StorageKey, (built steps).storage[k]? ≠ some 0) ∧
    (∀ k, StateChanges.slotIn (SlotMaps.built steps) k = (built steps).storage[k]?) ∧
    (∀ (a : Address) (slots : Table Word Word),
      (SlotMaps.built steps)[a]? = some slots → slots.isEmpty = false) ∧
    (∀ steps', (∀ a, (built steps').account? a = (built steps).account? a) →
      (∀ k, (built steps').storageValue k = (built steps).storageValue k) →
      (built steps').accounts = (built steps).accounts ∧
        (built steps').storage = (built steps).storage ∧
        SlotMaps.built steps' = SlotMaps.built steps) ∧
    ∀ w, Accumulator.CodedReached codes (built steps).view w →
      ∀ a x after, w.readAccount a = .ok (some x, after) →
        w.codeByHash x.codeHash = .ok x.code := by
  have hmirrors := SlotMaps.mirrors_built steps
  refine ⟨holdsNoZero_built steps, hmirrors.slots, ?_, ?_, ?_⟩
  · intro a slots hfound
    rw [Bool.eq_false_iff]
    intro hnone
    exact hmirrors.canonical.nonempty a (by rw [hfound, Std.ExtTreeMap.isEmpty_iff.mp hnone])
  · intro steps' haccounts hslots
    obtain ⟨hsame, hsameSlots⟩ :=
      (holdsNoZero_built steps').ext (holdsNoZero_built steps) haccounts hslots
    have hmirrors' := SlotMaps.mirrors_built steps'
    refine ⟨hsame, hsameSlots, hmirrors'.canonical.ext hmirrors.canonical fun k => ?_⟩
    rw [hmirrors'.slots, hmirrors.slots, hsameSlots]
  · intro w hw a x after hread
    obtain ⟨hs, hbase⟩ := hw.reached.sound_base
    have hreadable : w.base.Readable := hbase ▸ readable_view (built steps)
    have hx : w.values.account a = some x :=
      (Accumulator.exists_readAccount_iff hs hreadable).mp ⟨after, hread⟩
    exact hw.codeByHash hinj hempty (indexed_built hinj hsteps) hx

/-! ## A contract that moves -/

/-- A contract of one instruction. -/
def tinyContract : Account where
  nonce := 1
  codeHash := 0x15a5de5d00dfc39d199ee772e89858c204d1d545de092db54a345c7303942607#256
  code := [0x60]

theorem keccak256_tinyContract : keccak256 [0x60] = tinyContract.codeHash := by
  rw [keccak256_eq]
  decide +kernel

/-- The code of the contract, and none. -/
def tinyCodes : Set Bytes := {[], [0x60]}

theorem coded_tinyContract : tinyContract.Coded tinyCodes :=
  ⟨.inr rfl, keccak256_tinyContract.symm⟩

theorem injOn_tinyCodes : Set.InjOn keccak256 tinyCodes := by
  have hne : keccak256 [] ≠ keccak256 [0x60] := by
    rw [← keccakEmpty_eq, keccak256_tinyContract]
    decide
  rintro c (rfl | rfl) d (rfl | rfl) h
  · rfl
  · exact absurd h hne
  · exact absurd h.symm hne
  · rfl

/-- The account 1 is deleted though a slot of it is listed, and the contract is put at 2. -/
def handOver : StateChanges where
  accounts := ((∅ : Table Address (Option Account)).insert 1 none).insert 2 (some tinyContract)
  storage := ((∅ : Table StorageKey Word).insert ⟨1, 7⟩ 9).insert ⟨2, 0⟩ 4

/-- The contract moves from one account to another, and slots come and go. -/
def movedContract : List StateStep :=
  [.insertAccount 1 tinyContract, .setStorage ⟨1, 7⟩ 5, .apply handOver, .setStorage ⟨2, 0⟩ 0]

theorem coded_movedContract : ∀ step ∈ movedContract, step.Coded tinyCodes := by
  intro step hstep
  rcases hstep with _ | ⟨_, _ | ⟨_, _ | ⟨_, _ | ⟨_, hnone⟩⟩⟩⟩
  · exact coded_tinyContract
  · trivial
  · intro a x hx
    simp only [handOver, Table.getElem?_insert_eq] at hx
    split_ifs at hx
    · cases hx
      exact coded_tinyContract
    · cases hx
    · rw [Std.ExtTreeMap.getElem?_empty] at hx
      cases hx
  · trivial
  · cases hnone

/-- Another account was created over that state. -/
def besideContract : Accumulator :=
  ((Operation.updateAccount 3 fun a => { a with nonce := 1 }).execution.runOn
    (.ofView (WorldState.built movedContract).view)).2

theorem codedReached_besideContract :
    Accumulator.CodedReached tinyCodes (WorldState.built movedContract).view besideContract :=
  .operation .fresh _ ⟨.inl rfl, keccakEmpty_eq⟩

/-- Nothing is left of the slots nor of their maps, and the code is found though no account that has
it is loaded. -/
theorem built_canonical_movedContract :
    (WorldState.built movedContract).storage = ∅ ∧ SlotMaps.built movedContract = ∅ ∧
      besideContract.accountUpdate? 2 = none ∧
      besideContract.codeByHash tinyContract.codeHash = .ok [0x60] := by
  obtain ⟨-, -, -, hsame, hcode⟩ :=
    WorldState.built_canonical injOn_tinyCodes (.inl rfl) coded_movedContract
  have haccounts : (WorldState.built [.insertAccount 2 tinyContract]).accounts =
      (WorldState.built movedContract).accounts := by decide +kernel
  have hslots : (WorldState.built [.insertAccount 2 tinyContract]).storage =
      (WorldState.built movedContract).storage := by decide +kernel
  obtain ⟨-, hstorage, hmaps⟩ := hsame [.insertAccount 2 tinyContract]
    (fun a => by rw [WorldState.account?, WorldState.account?, haccounts])
    (fun k => by rw [WorldState.storageValue, WorldState.storageValue, hslots])
  -- The contract is read where it was put, over the view.
  have hread : ∃ after, besideContract.readAccount 2 = .ok (some tinyContract, after) := by
    obtain ⟨hs, hbase⟩ := codedReached_besideContract.reached.sound_base
    rw [Accumulator.exists_readAccount_iff hs (hbase ▸ WorldState.readable_view _)]
    decide +kernel
  obtain ⟨after, hread⟩ := hread
  exact ⟨hstorage.symm, hmaps.symm, by decide +kernel,
    hcode besideContract codedReached_besideContract 2 tinyContract after hread⟩

end BlockExecution

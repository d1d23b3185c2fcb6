/-
  Parts of instructions ask about accounts in use only.

  A steady part, begun on a ledger that covers what was asked so far, ends on one
  that does, whether it succeeds or fails. Accounts are brought into use by the
  question itself, and slots are asked about only of the account that runs, which
  is in use.
-/
import BlockExecution.Interpreter.Step
import BlockExecution.Proofs.Interpreter.Frame
import BlockExecution.Proofs.Interpreter.Ledger

namespace BlockExecution.Interpreter

open BlockExecution.Evm (Input Query Reading)

namespace Step

variable {α β : Type} {x : Step α} {l l' : Ledger} {f : Frame} {a : Address}

/-- From a ledger that covers what was asked, the part ends on one that does. What it gives,
together with that ledger, satisfies `post`. -/
def Steady (x : Step α) (l : Ledger) (post : α → Ledger → Prop) : Prop :=
  ∀ asked ⊆ l.inUse, (x.run.run l).Tracks asked fun r s =>
    l.Reaches r.2 s ∧ ∀ a, r.1 = .ok a → post a r.2

theorem run_read {γ : Type} (x : Reading γ) (g : γ → Step β) (l : Ledger) :
    ((Step.read x >>= g).run.run l : Query (Except Fault β × Ledger)) =
      (x.run : Query (Evm.Answer γ)) >>= fun answer =>
        match answer with
        | .ok c => (g c).run.run l
        | .error e => Pure.pure (.error (.unreadable e), l) := by
  unfold Step.read
  generalize (x.run : Query (Evm.Answer γ)) = q
  -- The reading is a tree of questions; the step puts the same ones and then goes on.
  induction q with
  | done answer => cases answer <;> rfl
  | account address next ih => exact congrArg (Query.account address) (funext ih)
  | slot key next ih => exact congrArg (Query.slot key) (funext ih)
  | code codeHash next ih => exact congrArg (Query.code codeHash) (funext ih)
  | blockHash number next ih => exact congrArg (Query.blockHash number) (funext ih)

namespace Steady

variable {post post' : α → Ledger → Prop} {after : β → Ledger → Prop}

theorem mono (h : x.Steady l post) (himp : ∀ a l', post a l' → post' a l') :
    x.Steady l post' := fun asked hasked =>
  (h asked hasked).mono fun r _ hr => ⟨hr.1, fun a ha => himp a r.2 (hr.2 a ha)⟩

theorem pure {a : α} (h : post a l) : (Pure.pure a : Step α).Steady l post := by
  intro asked hasked
  refine ⟨.refl hasked, ?_⟩
  rintro _ ⟨⟩
  exact h

theorem throw (fault : Fault) : (MonadExcept.throw fault : Step α).Steady l post := by
  intro asked hasked
  refine ⟨.refl hasked, ?_⟩
  rintro _ ⟨⟩

theorem bind {g : α → Step β} (hx : x.Steady l post)
    (hg : ∀ a l', l.inUse ⊆ l'.inUse → post a l' → (g a).Steady l' after) :
    (x >>= g).Steady l after := by
  intro asked hasked
  apply Query.Tracks.bind (hx asked hasked)
  rintro ⟨answer, l'⟩ s ⟨hreach, hpost⟩
  cases answer with
  | error fault =>
    refine ⟨hreach, ?_⟩
    rintro _ ⟨⟩
  | ok a =>
    apply (hg a l' hreach.keeps (hpost a rfl) s hreach.covers).mono
    exact fun r _ hr => ⟨hreach.trans hr.1, hr.2⟩

/-! ## Steps on the frame and on the ledger -/

theorem lift {e : Except Fault α} {post : α → Prop} (h : Yields e post) :
    (liftM e : Step α).Steady l fun a l' => post a ∧ l' = l := by
  intro asked hasked
  cases e with
  | error fault =>
    refine ⟨.refl hasked, ?_⟩
    rintro _ ⟨⟩
  | ok a =>
    refine ⟨.refl hasked, ?_⟩
    rintro _ ⟨⟩
    exact ⟨h a rfl, rfl⟩

/-- Something that the frame alone does, and what comes after it. -/
theorem bind_lift {e : Except Fault α} {post : α → Prop} {g : α → Step β} (he : Yields e post)
    (hg : ∀ a, post a → (g a).Steady l after) : (liftM e >>= g : Step β).Steady l after := by
  apply (lift he).bind
  rintro a l' - ⟨hpost, rfl⟩
  exact hg a hpost

theorem bind_get {g : Ledger → Step β} (h : (g l).Steady l after) :
    (get >>= g : Step β).Steady l after := by
  have hget : (get : Step Ledger).Steady l fun a l' => a = l ∧ l' = l := by
    intro asked hasked
    refine ⟨.refl hasked, ?_⟩
    rintro _ ⟨⟩
    exact ⟨rfl, rfl⟩
  apply hget.bind
  rintro _ _ - ⟨rfl, rfl⟩
  exact h

/-- A change of the ledger that keeps what was read, and what comes after it. -/
theorem bind_modify {change : Ledger → Ledger} {g : Unit → Step β}
    (hfetched : (change l).fetched = l.fetched) (h : (g ()).Steady (change l) after) :
    (modify change >>= g : Step β).Steady l after := by
  have hmodify : (modify change : Step Unit).Steady l fun _ l' => l' = change l := by
    intro asked hasked
    refine ⟨.of_fetched hasked hfetched, ?_⟩
    rintro _ ⟨⟩
    rfl
  apply hmodify.bind
  rintro _ _ - rfl
  exact h

theorem bind_set {g : PUnit → Step β} (hfetched : l'.fetched = l.fetched)
    (h : (g ⟨⟩).Steady l' after) : (set l' >>= g : Step β).Steady l after := by
  have hset : (set l' : Step PUnit).Steady l fun _ l'' => l'' = l' := by
    intro asked hasked
    refine ⟨.of_fetched hasked hfetched, ?_⟩
    rintro _ ⟨⟩
    rfl
  apply hset.bind
  rintro _ _ - rfl
  exact h

/-! ## Reads -/

/-- A read that brings something into use, and what comes after it on the ledger that comes with
the answer. -/
theorem bind_read {γ : Type} {x : Reading γ} (ledger : γ → Ledger) (given : γ → Prop)
    {g k : γ → Step β}
    (hx : ∀ asked ⊆ l.inUse, x.Answers asked fun c s => l.Reaches (ledger c) s ∧ given c)
    (hset : ∀ c, g c = (set (ledger c) >>= fun _ => k c))
    (hk : ∀ c, l.inUse ⊆ (ledger c).inUse → given c → (k c).Steady (ledger c) after) :
    (Step.read x >>= g).Steady l after := by
  intro asked hasked
  rw [run_read]
  apply Query.Tracks.bind (hx asked hasked)
  rintro _ s ⟨c, rfl, hreach, hgiven⟩
  dsimp only
  rw [hset c]
  apply (hk c hreach.keeps hgiven s hreach.covers).mono
  exact fun r _ hr => ⟨hreach.trans hr.1, hr.2⟩

/-- Looking up a block hash, and what comes after it. -/
theorem bind_blockHash {number : U64} {g : Hash → Step β}
    (h : ∀ hash, (g hash).Steady l after) :
    (Step.read (Reading.blockHash number) >>= g).Steady l after := by
  intro asked hasked
  rw [run_read]
  intro answer
  cases answer with
  | ok hash => exact h hash asked hasked
  | error e =>
    refine ⟨.refl hasked, ?_⟩
    rintro _ ⟨⟩

/-- Something that the frame alone does at the end. -/
theorem lift_address {e : Except Fault Frame} (h : Yields e (·.address = a)) :
    (liftM e : Step Frame).Steady l fun f _ => f.address = a :=
  (lift h).mono fun _ _ hpost => hpost.1

end Steady

/-! ## Accounts and slots -/

theorem steady_load (h : f.address = a) (address : Address) (coldPrice : Nat) :
    (load f address coldPrice).Steady l fun f' l' => f'.address = a ∧ address ∈ l'.inUse := by
  unfold load
  apply Steady.bind_get
  apply Steady.bind_lift (Frame.address_charge h _)
  intro f₁ h₁
  apply Steady.bind_get
  apply Steady.bind_read id (address ∈ ·.inUse)
    (fun _ hasked => Ledger.answers_load hasked address) (fun _ => rfl)
  exact fun l' _ hmem => .pure ⟨h₁, hmem⟩

theorem steady_access (h : f.address = a) (address : Address) :
    (access f address).Steady l fun f' l' => f'.address = a ∧ address ∈ l'.inUse := by
  unfold access
  apply Steady.bind_lift (Frame.address_charge h _)
  exact fun f₁ h₁ => steady_load h₁ _ _

theorem steady_balance (h : f.address = a) :
    (balance f).Steady l fun f' _ => f'.address = a := by
  unfold balance
  apply Steady.bind_lift (Frame.address_pop h)
  rintro ⟨word, f₁⟩ h₁
  apply (steady_access h₁ _).bind
  rintro f₂ l' - ⟨h₂, -⟩
  exact .bind_get (.lift_address (Frame.address_push h₂ _))

theorem steady_selfBalance (h : f.address = a) :
    (selfBalance f).Steady l fun f' _ => f'.address = a :=
  .bind_get (.lift_address (Frame.address_push h _))

theorem steady_loadSlot {key : StorageKey} (h : key.address ∈ l.inUse) :
    (loadSlot key).Steady l fun _ _ => True := by
  unfold loadSlot
  apply Steady.bind_get
  apply Steady.bind_read Prod.snd (fun _ => True)
    (fun _ hasked => (Ledger.answers_loadSlot hasked h).mono ?_) (fun _ => rfl)
  · exact fun _ _ _ => .pure trivial
  · rintro _ s ⟨c, rfl, hreach⟩
    exact ⟨c, rfl, hreach, trivial⟩

theorem steady_sload (h : f.address = a) (ha : a ∈ l.inUse) :
    (sload f).Steady l fun f' _ => f'.address = a := by
  unfold sload
  apply Steady.bind_lift (Frame.address_pop h)
  rintro ⟨slot, f₁⟩ h₁
  apply Steady.bind_lift (Frame.address_charge h₁ _)
  intro f₂ h₂
  apply Steady.bind_get
  apply Steady.bind_lift (Frame.address_charge h₂ _)
  intro f₃ h₃
  -- The slot belongs to the account that runs, which is in use.
  have hkey : f₁.address ∈ l.inUse := h₁ ▸ ha
  apply (steady_loadSlot hkey).bind
  exact fun value l' _ _ => .lift_address (Frame.address_push h₃ _)

theorem steady_sstore (h : f.address = a) (ha : a ∈ l.inUse) :
    (sstore f).Steady l fun f' _ => f'.address = a := by
  unfold sstore
  apply Steady.bind_lift (Frame.address_pop₂ h)
  rintro ⟨slot, new, f₁⟩ h₁
  dsimp only at h₁ ⊢
  split
  · have hthrow : (throw .outOfGas : Step PUnit).Steady l fun _ _ => False := .throw _
    exact hthrow.bind fun _ _ _ hfalse => hfalse.elim
  · apply Steady.bind_get
    have hkey : f₁.address ∈ l.inUse := h₁ ▸ ha
    apply (steady_loadSlot hkey).bind
    intro value l' _ _
    apply Steady.bind_get
    apply Steady.bind_lift (Frame.address_charge h₁ _)
    intro f₂ h₂
    exact .bind_modify rfl (.pure h₂)

/-! ## Blocks and logs -/

theorem steady_blockHash (env : Input) (h : f.address = a) :
    (blockHash env f).Steady l fun f' _ => f'.address = a := by
  unfold blockHash
  apply Steady.bind_lift (Frame.address_pop h)
  rintro ⟨word, f₁⟩ h₁
  dsimp only at h₁ ⊢
  split
  · exact .bind_blockHash fun hash => .lift_address (Frame.address_push h₁ _)
  · exact .lift_address (Frame.address_push h₁ _)

theorem steady_log (h : f.address = a) (topics : Nat) :
    (log f topics).Steady l fun f' _ => f'.address = a := by
  unfold log
  apply Steady.bind_lift (Frame.address_pop₂ h)
  rintro ⟨offset, len, f₁⟩ h₁
  apply Steady.bind_lift (Frame.address_charge h₁ _)
  intro f₂ h₂
  apply Steady.bind_lift (Frame.address_expand h₂ _ _)
  intro f₃ h₃
  apply Steady.bind_lift (Frame.address_popMany h₃ _)
  rintro ⟨words, f₄⟩ h₄
  exact .bind_modify rfl (.pure h₄)

/-! ## Calls and ends -/

theorem steady_calledCode (h : f.address = a) (address : Address) :
    (calledCode f address).Steady l fun r _ => r.2.address = a := by
  unfold calledCode
  apply Steady.bind_get
  dsimp only
  split
  · exact .pure h
  · apply (steady_access h _).bind
    rintro f₁ l' - ⟨h₁, -⟩
    exact .bind_get (.pure h₁)

/-- A call is prepared in the name of the account that runs, and of a recipient in use. -/
theorem steady_prepareCall (h : f.address = a) :
    (prepareCall f).Steady l fun r l' =>
      r.1.frame.address = a ∧ r.2.recipient ∈ l'.inUse := by
  unfold prepareCall
  apply Steady.bind_lift (Frame.address_pop₃ h)
  rintro ⟨requested, target, value, f₁⟩ h₁
  apply Steady.bind_lift (Frame.address_pop₂ h₁)
  rintro ⟨inputOffset, inputLength, f₂⟩ h₂
  apply Steady.bind_lift (Frame.address_pop₂ h₂)
  rintro ⟨outputOffset, outputLength, f₃⟩ h₃
  apply Steady.bind_lift (Frame.address_expand h₃ _ _)
  intro f₄ h₄
  apply Steady.bind_lift (Frame.address_expand h₄ _ _)
  intro f₅ h₅
  apply Steady.bind_lift (Frame.address_charge h₅ _)
  intro f₆ h₆
  -- Only from here on is the ledger used: the target comes into use, and its code is read.
  apply (steady_access h₆ _).bind
  rintro f₇ l₁ - ⟨h₇, hmem⟩
  apply (steady_calledCode h₇ _).bind
  rintro ⟨code, f₈⟩ l₂ hkeeps h₈
  apply Steady.bind_get
  apply Steady.bind_lift (Frame.address_charge h₈ _)
  intro f₉ h₉
  apply Steady.bind_lift (Frame.address_charge h₉ _)
  intro f₁₀ h₁₀
  exact .bind_get (.pure ⟨h₁₀, hkeeps hmem⟩)

theorem steady_output (h : f.address = a) :
    (output f).Steady l fun r _ => r.2.address = a := by
  unfold output
  apply Steady.bind_lift (Frame.address_pop₂ h)
  rintro ⟨offset, len, f₁⟩ h₁
  apply Steady.bind_lift (Frame.address_expand h₁ _ _)
  exact fun f₂ h₂ => .pure h₂

theorem steady_selfDestruct (h : f.address = a) :
    (selfDestruct f).Steady l fun f' _ => f'.address = a := by
  unfold selfDestruct
  apply Steady.bind_lift (Frame.address_pop h)
  rintro ⟨word, f₁⟩ h₁
  apply Steady.bind_lift (Frame.address_charge h₁ _)
  intro f₂ h₂
  apply (steady_load h₂ _ _).bind
  rintro f₃ l' - ⟨h₃, -⟩
  apply Steady.bind_get
  apply Steady.bind_set (Ledger.fetched_bequeath _ _ _)
  exact .lift_address (Frame.address_charge h₃ _)

end Step

end BlockExecution.Interpreter

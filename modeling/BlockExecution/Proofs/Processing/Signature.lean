/-
  What a checked signature says.

  Both processors check signatures first, whatever the machine of the one is,
  against the hash that the transaction carries. A transaction that is not refused
  was therefore signed by its sender over the stored hash, and over its request as
  far as the stored hash is the hash of the request. Of a request that is exchanged
  after signing, the check sees the sender alone.
-/
import BlockExecution.Crypto.Keccak.Lemmas
import BlockExecution.Evm.Engine
import BlockExecution.Proofs.Simple.Meaning

namespace BlockExecution

variable {config : ProcessorConfig} {ctx : BlockContext} {t : Transaction} {p : Processor}
  {make : ProcessorConfig → Processor}

theorem Transaction.isSignedBySender_iff :
    t.isSignedBySender = true ↔ Ecdsa.recover t.hash t.signature = some t.request.sender := by
  rw [isSignedBySender, beq_iff_eq, signer]

/-! ## The first check -/

/-- The settings with signatures switched off. -/
def ProcessorConfig.unchecked (config : ProcessorConfig) : ProcessorConfig :=
  { config with verifySignatures := false }

/-- How a processor checks signatures. What the sender did not sign it refuses at once, for the
given reason; what the sender signed it treats as the processor without the check does. -/
structure Processor.ChecksSignature (p unchecked : Processor) (reason : Rejection) : Prop where
  refuses : ∀ ctx t, t.isSignedBySender = false → p.settle ctx t .full = pure (.rejected reason)
  admits : ∀ ctx t, t.isSignedBySender = true →
    p.process ctx t .full = unchecked.process ctx t .full

namespace Simple

/-- Behind its first check, what is signed runs as if signatures were not checked. -/
theorem staticFault_of_signed {header : Header} {v : Validation} (h : t.isSignedBySender = true) :
    staticFault config header t v = staticFault config.unchecked header t v := by
  unfold staticFault ProcessorConfig.unchecked
  simp only [h, Bool.not_true, Bool.and_false]

theorem checksSignature_processor (hverify : config.verifySignatures = true) :
    (processor config).ChecksSignature (processor config.unchecked)
      (.simple .invalidSignature) where
  refuses := by
    intro ctx t hsigned
    have hfault : staticFault config ctx.header t .full = some .invalidSignature := by
      rw [staticFault, hverify, hsigned]
      rfl
    show settle config ctx t .full = _
    rw [settle_eq, hfault]
  admits := by
    intro ctx t hsigned
    have hsettle : settle config ctx t .full = settle config.unchecked ctx t .full := by
      rw [settle_eq, settle_eq, staticFault_of_signed hsigned]
      rfl
    exact congrArg (· >>= fun s => (processor config).finish ctx.beneficiary s) hsettle

end Simple

theorem Evm.Engine.checksSignature_processor (e : Engine)
    (hverify : config.verifySignatures = true) :
    (e.processor config).ChecksSignature (e.processor config.unchecked)
      (.evm .invalidSignature) where
  refuses := by
    intro ctx t hsigned
    show e.settle config ctx t .full = _
    rw [settle, hverify, hsigned]
    rfl
  admits := by
    intro ctx t hsigned
    have hsettle : e.settle config ctx t .full = e.settle config.unchecked ctx t .full := by
      unfold settle
      simp only [hsigned, Bool.not_true, Bool.and_false]
      -- Nothing behind the check asks whether signatures are checked.
      rfl
    exact congrArg (· >>= fun s => (e.processor config).finish ctx.beneficiary s) hsettle

/-- A transaction that its sender did not sign is refused, and nothing is read or written. -/
theorem Processor.ChecksSignature.process {q : Processor} {reason : Rejection}
    (h : p.ChecksSignature q reason) (hsigned : t.isSignedBySender = false) (ctx : BlockContext)
    (w : Accumulator) : (p.process ctx t .full).runOn w = (.ok (.invalid reason), w) := by
  rw [Processor.process, h.refuses ctx t hsigned, pure_bind]
  rfl

/-- Both processors check signatures where these are switched on, and refuse with one text. -/
theorem exists_checksSignature
    (hmake : make = Simple.processor ∨ ∃ e : Evm.Engine, make = e.processor)
    (hverify : config.verifySignatures = true) :
    ∃ reason : Rejection, reason.message = "invalid signature" ∧
      (make config).ChecksSignature (make config.unchecked) reason := by
  rcases hmake with rfl | ⟨e, rfl⟩
  · exact ⟨_, rfl, Simple.checksSignature_processor hverify⟩
  · exact ⟨_, rfl, e.checksSignature_processor hverify⟩

/-! ## What is signed -/

/-- A checked signature covers the stored hash, on both processors and with every machine. What its
sender did not sign over that hash is refused untouched. Of a request that takes the place of a
signed one the check compares the sender alone: with another sender it is refused, with the same one
it is treated as if signatures were not checked. So what is not refused was signed by its sender
over the stored hash, and was signed over its request exactly if the signature recovers the same
address there, as it does if the stored hash is that of the request. -/
theorem process_signature
    (hmake : make = Simple.processor ∨ ∃ e : Evm.Engine, make = e.processor)
    (hverify : config.verifySignatures = true) (ctx : BlockContext) (t : Transaction)
    (w : Accumulator) :
    (Ecdsa.recover t.hash t.signature ≠ some t.request.sender →
      ∃ reason : Rejection, reason.message = "invalid signature" ∧
        ((make config).process ctx t .full).runOn w = (.ok (.invalid reason), w)) ∧
    (∀ r : TransactionRequest, Ecdsa.recover t.hash t.signature = some t.request.sender →
      (r.sender ≠ t.request.sender →
        ∃ reason : Rejection, reason.message = "invalid signature" ∧
          ((make config).process ctx { t with request := r } .full).runOn w =
            (.ok (.invalid reason), w)) ∧
      (r.sender = t.request.sender →
        (make config).process ctx { t with request := r } .full =
          (make { config with verifySignatures := false }).process ctx { t with request := r }
            .full)) ∧
    (∀ answer w', ((make config).process ctx t .full).runOn w = (answer, w') →
      (∀ reason, answer ≠ .ok (.invalid reason)) →
        Ecdsa.recover t.hash t.signature = some t.request.sender ∧
        (Ecdsa.recover t.request.signingHash t.signature = some t.request.sender ↔
          Ecdsa.recover t.request.signingHash t.signature =
            Ecdsa.recover t.hash t.signature) ∧
        (t.hash = t.request.signingHash →
          Ecdsa.recover t.request.signingHash t.signature = some t.request.sender)) := by
  obtain ⟨reason, htext, hchecks⟩ := exists_checksSignature hmake hverify
  have hunsigned : ∀ t : Transaction, Ecdsa.recover t.hash t.signature ≠ some t.request.sender →
      ((make config).process ctx t .full).runOn w = (.ok (.invalid reason), w) := by
    intro t hnot
    apply hchecks.process
    rw [Bool.eq_false_iff, ne_eq, Transaction.isSignedBySender_iff]
    exact hnot
  -- An exchanged request keeps the hash and the signature that are checked.
  refine ⟨fun hnot => ⟨reason, htext, hunsigned t hnot⟩,
    fun r hsigned => ⟨fun hother => ?_, fun hsame => ?_⟩, fun answer w' hrun hkept => ?_⟩
  · refine ⟨reason, htext, hunsigned _ ?_⟩
    show Ecdsa.recover t.hash t.signature ≠ some r.sender
    rw [hsigned]
    exact fun hsame => hother (Option.some.inj hsame).symm
  · apply hchecks.admits
    rw [Transaction.isSignedBySender_iff]
    show Ecdsa.recover t.hash t.signature = some r.sender
    rw [hsigned, hsame]
  · have hsigned : Ecdsa.recover t.hash t.signature = some t.request.sender := by
      by_contra hnot
      rw [hunsigned t hnot, Prod.mk.injEq] at hrun
      exact hkept reason hrun.1.symm
    refine ⟨hsigned, by rw [hsigned], fun hhash => ?_⟩
    rw [← hhash]
    exact hsigned

/-! ## Addresses of keys, by reduction -/

theorem Secp256k1.Point.address_eq (p : Point) :
    p.address = Address.ofWord (Keccak.packedHash (beBytes 32 p.x ++ beBytes 32 p.y)) :=
  congrArg Address.ofWord (keccak256_eq _)

theorem Ecdsa.recover_eq (hash : Hash) (sig : Signature) :
    recover hash sig = (recoverKey hash sig).map fun key =>
      Address.ofWord (Keccak.packedHash (beBytes 32 key.x ++ beBytes 32 key.y)) :=
  congrArg (fun address => (recoverKey hash sig).map address)
    (funext Secp256k1.Point.address_eq)

/-! ## A transfer that is changed after signing -/

/-- A transfer of nothing, signed by its sender. -/
def signedTransfer : Transaction where
  request :=
    { chainId := 1
      sender := 0x04b678962787ccd195a8e324d4c6bc4d5727f82b
      recipient := some 0x2222222222222222222222222222222222222222
      gasLimit := 21000, maxFee := 10, maxPriorityFee := 2 }
  signature :=
    { r := 0x8aa9e5de88ae322d435b0399eae163b0838351619dd8854ddd0f19dfa8ab7ff2
      s := 0x2c269cbf27ccdaf46d62228e008087fd77f479257bbb34e10ad6f922d6b23d00
      oddY := true }
  hash := 0x2b328fb05b7a5dd136d5f9357ff42f50acd513fea28586084c4f155805780125

/-- The same transfer, changed to move one. -/
def raisedTransfer : Transaction :=
  { signedTransfer with request := { signedTransfer.request with value := 1 } }

theorem signingHash_signedTransfer :
    signedTransfer.request.signingHash = signedTransfer.hash := by
  rw [TransactionRequest.signingHash, keccak256_eq]
  decide +kernel

theorem recover_signedTransfer :
    Ecdsa.recover signedTransfer.hash signedTransfer.signature =
      some signedTransfer.request.sender := by
  rw [Ecdsa.recover_eq]
  decide +kernel

theorem recover_raisedTransfer :
    Ecdsa.recover raisedTransfer.request.signingHash raisedTransfer.signature ≠
      some raisedTransfer.request.sender := by
  rw [Ecdsa.recover_eq, TransactionRequest.signingHash, keccak256_eq]
  decide +kernel

/-- The account of the sender, with enough to pay. -/
def senderState : WorldState :=
  (∅ : WorldState).insertAccount 0x04b678962787ccd195a8e324d4c6bc4d5727f82b
    (.plain 0 1000000000000000000)

/-- A block for the transfer. -/
def transferContext : BlockContext where
  header := { beneficiary := 9, gasLimit := 30000000, baseFee := some 7 }
  beneficiary := 9
  blockHash? := fun _ => none
  blobGasPrice := 1

namespace Simple

theorem exists_run_of_passes {state : WorldState}
    (h : Passes config ctx t .full (Accumulator.ofView state.view).values) :
    ∃ result w', ((processor config).process ctx t .full).runOn (.ofView state.view) =
      (.ok result, w') ∧ result.rejection? = none := by
  obtain ⟨w', hrun, -, -⟩ := (gives_process config ctx t .full
    (Accumulator.ofView state.view).values).run (Accumulator.sound_ofView _) state.readable_view
  exact ⟨_, w', hrun, rejection?_processOn_eq_none_iff.mpr h⟩

theorem passes_signedTransfer : Passes {} transferContext signedTransfer .full
    (Accumulator.ofView senderState.view).values where
  static := by
    rw [staticFault_of_signed (Transaction.isSignedBySender_iff.mpr recover_signedTransfer)]
    decide +kernel
  sender := by decide +kernel

theorem passes_raisedTransfer : Passes {} transferContext raisedTransfer .full
    (Accumulator.ofView senderState.view).values where
  static := by
    have hsigned : raisedTransfer.isSignedBySender = true :=
      Transaction.isSignedBySender_iff.mpr recover_signedTransfer
    rw [staticFault_of_signed hsigned]
    decide +kernel
  sender := by decide +kernel

end Simple

/-- The transfer as it was signed runs, and its signature covers its request. -/
theorem process_signature_signedTransfer :
    ∃ result w', ((Simple.processor {}).process transferContext signedTransfer .full).runOn
        (.ofView senderState.view) = (.ok result, w') ∧ result.rejection? = none ∧
      Ecdsa.recover signedTransfer.request.signingHash signedTransfer.signature =
        some signedTransfer.request.sender := by
  obtain ⟨result, w', hrun, hexecuted⟩ := Simple.exists_run_of_passes Simple.passes_signedTransfer
  have hkept : ∀ reason, (.ok result : Except StateError ProcessingResult) ≠
      .ok (.invalid reason) := by
    rintro reason heq
    rw [Except.ok.inj heq] at hexecuted
    cases hexecuted
  obtain ⟨-, -, hcovers⟩ := (process_signature (.inl rfl) rfl transferContext signedTransfer
    (.ofView senderState.view)).2.2 _ w' hrun hkept
  exact ⟨result, w', hrun, hexecuted, hcovers signingHash_signedTransfer.symm⟩

/-- The transfer that was changed afterwards runs as well, although the signature does not fit its
request. -/
theorem process_raisedTransfer :
    (∃ result w', ((Simple.processor {}).process transferContext raisedTransfer .full).runOn
        (.ofView senderState.view) = (.ok result, w') ∧ result.rejection? = none) ∧
      Ecdsa.recover raisedTransfer.request.signingHash raisedTransfer.signature ≠
        some raisedTransfer.request.sender :=
  ⟨Simple.exists_run_of_passes Simple.passes_raisedTransfer, recover_raisedTransfer⟩

end BlockExecution

/-
  What the signed bytes say about a request.

  Every field of a request is written on a width of its own, behind a tag or
  behind its length, except for the two lists at the end: the access list and the
  blob hashes follow each other without a count. The signed bytes therefore fix
  all other fields and the bytes of the lists, but not where these are cut. Bytes
  enough for an address and a word can always be cut in a second way, and so can
  five words or eight addresses, which are equally long.
-/
import BlockExecution.Bytes.Lemmas
import BlockExecution.Transaction

namespace BlockExecution

/-! ## Writers that can be split off -/

/-- What is written can be split off the front of any longer byte string. -/
def PrefixFree {α : Type} (write : α → Bytes) : Prop :=
  ∀ a b xs ys, write a ++ xs = write b ++ ys → a = b ∧ xs = ys

section Writers

variable {α : Type} {write : α → Bytes}

theorem prefixFree_of_width {w : Nat} (hwidth : ∀ a, (write a).length = w)
    (hinj : ∀ a b, write a = write b → a = b) : PrefixFree write := by
  intro a b xs ys h
  obtain ⟨hab, hrest⟩ := List.append_inj h ((hwidth a).trans (hwidth b).symm)
  exact ⟨hinj a b hab, hrest⟩

/-- Lists of one length are fixed by what is written of them. -/
theorem PrefixFree.flatMap_inj (hwrite : PrefixFree write) {as bs : List α} {xs ys : Bytes}
    (hlength : as.length = bs.length)
    (h : as.flatMap write ++ xs = bs.flatMap write ++ ys) : as = bs ∧ xs = ys := by
  induction as generalizing bs with
  | nil =>
    obtain rfl := List.eq_nil_of_length_eq_zero hlength.symm
    exact ⟨rfl, h⟩
  | cons a as ih =>
    cases bs with
    | nil => cases hlength
    | cons b bs =>
      simp only [List.flatMap_cons, List.append_assoc] at h
      obtain ⟨hhead, htail⟩ := hwrite a b _ _ h
      obtain ⟨hrest, hends⟩ := ih (Nat.succ.inj hlength) htail
      exact ⟨by rw [hhead, hrest], hends⟩

theorem length_flatMap_of_width {w : Nat} (hwidth : ∀ a, (write a).length = w) (as : List α) :
    (as.flatMap write).length = w * as.length := by
  simp [List.length_flatMap, hwidth, Nat.mul_comm]

/-- A writer that reaches every byte string of its width can be read back from any string that
is a multiple of it. -/
theorem exists_flatMap_of_width {w : Nat} (hreach : ∀ bs : Bytes, bs.length = w → ∃ a, write a = bs)
    (n : Nat) (bs : Bytes) (hlength : bs.length = w * n) :
    ∃ as : List α, as.length = n ∧ as.flatMap write = bs := by
  induction n generalizing bs with
  | zero => exact ⟨[], rfl, (List.eq_nil_of_length_eq_zero hlength).symm⟩
  | succ n ih =>
    rw [Nat.mul_succ] at hlength
    obtain ⟨a, ha⟩ := hreach (bs.take w) (by rw [List.length_take]; omega)
    obtain ⟨as, hn, has⟩ := ih (bs.drop w) (by rw [List.length_drop]; omega)
    exact ⟨a :: as, congrArg Nat.succ hn, by
      rw [List.flatMap_cons, ha, has, List.take_append_drop]⟩

end Writers

theorem prefixFree_beBytes (n : Nat) :
    PrefixFree fun a : BitVec (8 * n) => beBytes n a.toNat := by
  have hpow : (2 : Nat) ^ (8 * n) = 256 ^ n := Nat.pow_mul 2 8 n
  refine prefixFree_of_width (fun a => length_beBytes n a.toNat) fun a b h => ?_
  exact BitVec.eq_of_toNat_eq (beBytes_inj (hpow ▸ a.isLt) (hpow ▸ b.isLt) h)

theorem exists_beBytes {n : Nat} (bs : Bytes) (hlength : bs.length = n) :
    ∃ a : BitVec (8 * n), beBytes n a.toNat = bs := by
  have hpow : (2 : Nat) ^ (8 * n) = 256 ^ n := Nat.pow_mul 2 8 n
  have hlt : beNat bs < 256 ^ n := hlength ▸ beNat_lt bs
  refine ⟨BitVec.ofNat _ (beNat bs), beNat_inj (by rw [length_beBytes, hlength]) ?_⟩
  rw [beNat_beBytes, BitVec.toNat_ofNat, hpow, Nat.mod_mod, Nat.mod_eq_of_lt hlt]

theorem U64.prefixFree_bytes : PrefixFree U64.bytes := prefixFree_beBytes 8

theorem U128.prefixFree_bytes : PrefixFree U128.bytes := prefixFree_beBytes 16

theorem Address.prefixFree_bytes : PrefixFree Address.bytes := prefixFree_beBytes 20

theorem Word.prefixFree_bytes : PrefixFree Word.bytes := prefixFree_beBytes 32

theorem Address.length_bytes (a : Address) : a.bytes.length = 20 := length_beBytes 20 a.toNat

/-- A byte string on as many bytes as its length has is fixed by them. -/
theorem prefixFree_withLength {as bs xs ys : Bytes} (has : as.length < 2 ^ 64)
    (hbs : bs.length < 2 ^ 64)
    (h : beBytes 8 as.length ++ (as ++ xs) = beBytes 8 bs.length ++ (bs ++ ys)) :
    as = bs ∧ xs = ys := by
  obtain ⟨hwritten, hrest⟩ := List.append_inj h (by simp only [length_beBytes])
  exact List.append_inj hrest (beBytes_inj has hbs hwritten)

namespace TransactionRequest

theorem prefixFree_recipientBytes : PrefixFree recipientBytes := by
  intro a b xs ys h
  cases a with
  | none =>
    cases b with
    | none => exact ⟨rfl, (List.cons.inj h).2⟩
    | some b => exact absurd (List.cons.inj h).1 (by decide)
  | some a =>
    cases b with
    | none => exact absurd (List.cons.inj h).1 (by decide)
    | some b =>
      obtain ⟨rfl, hrest⟩ := Address.prefixFree_bytes a b xs ys (List.cons.inj h).2
      exact ⟨rfl, hrest⟩

/-! ## The bytes of the two lists -/

/-- A request with nothing in its lists. -/
def withoutLists (r : TransactionRequest) : TransactionRequest :=
  { r with accessList := [], blobHashes := [] }

/-- What is signed of the two lists. -/
def listBytes (r : TransactionRequest) : Bytes :=
  accessListBytes r.accessList ++ r.blobHashes.flatMap Word.bytes

/-- How many slots each account of the access list announces. -/
def slotCounts (r : TransactionRequest) : List Nat :=
  r.accessList.map (·.storageKeys.length)

theorem signingData_eq_append (r : TransactionRequest) :
    r.signingData = r.withoutLists.signingData ++ r.listBytes := by
  simp [signingData, withoutLists, listBytes, accessListBytes]

/-- The signed bytes are those of the other fields and those of the lists, and both can be read
from them. -/
theorem signingData_eq_iff {r r' : TransactionRequest} (hr : r.input.length < 2 ^ 64)
    (hr' : r'.input.length < 2 ^ 64) :
    r.signingData = r'.signingData ↔
      r.withoutLists = r'.withoutLists ∧ r.listBytes = r'.listBytes := by
  constructor
  · intro h
    simp only [signingData, List.append_assoc] at h
    -- Each field is read off the front, and leaves the rest to be compared.
    obtain ⟨hchain, h⟩ := U64.prefixFree_bytes _ _ _ _ h
    obtain ⟨hnonce, h⟩ := U64.prefixFree_bytes _ _ _ _ h
    obtain ⟨hsender, h⟩ := Address.prefixFree_bytes _ _ _ _ h
    obtain ⟨hrecipient, h⟩ := prefixFree_recipientBytes _ _ _ _ h
    obtain ⟨hvalue, h⟩ := Word.prefixFree_bytes _ _ _ _ h
    obtain ⟨hgas, h⟩ := U64.prefixFree_bytes _ _ _ _ h
    obtain ⟨hfee, h⟩ := U128.prefixFree_bytes _ _ _ _ h
    obtain ⟨hpriority, h⟩ := U128.prefixFree_bytes _ _ _ _ h
    obtain ⟨hinput, hlists⟩ := prefixFree_withLength hr hr' h
    refine ⟨?_, hlists⟩
    simp only [withoutLists, hchain, hnonce, hsender, hrecipient, hvalue, hgas, hfee, hpriority,
      hinput]
  · rintro ⟨hothers, hlists⟩
    rw [signingData_eq_append, signingData_eq_append r', hothers, hlists]

theorem accessListBytes_append_inj {items items' : List AccessListItem} {xs ys : Bytes}
    (hcounts : items.map (·.storageKeys.length) = items'.map (·.storageKeys.length))
    (h : accessListBytes items ++ xs = accessListBytes items' ++ ys) :
    items = items' ∧ xs = ys := by
  -- With the numbers of keys given, the bytes of each item have a known length.
  induction items generalizing items' with
  | nil =>
    obtain rfl := List.map_eq_nil_iff.mp hcounts.symm
    exact ⟨rfl, h⟩
  | cons item items ih =>
    cases items' with
    | nil => cases hcounts
    | cons item' items' =>
      obtain ⟨address, keys⟩ := item
      obtain ⟨address', keys'⟩ := item'
      obtain ⟨hcount, hcounts⟩ := List.cons.inj hcounts
      simp only [accessListBytes, List.flatMap_cons, List.append_assoc] at h
      obtain ⟨haddress, h⟩ := Address.prefixFree_bytes _ _ _ _ h
      obtain ⟨hkeys : keys = keys', h⟩ := Word.prefixFree_bytes.flatMap_inj hcount h
      obtain ⟨hrest, hends⟩ := ih hcounts h
      exact ⟨by rw [haddress, hkeys, hrest], hends⟩

theorem length_accessListBytes (items : List AccessListItem) :
    (accessListBytes items).length
      = 20 * items.length + 32 * (items.map (·.storageKeys.length)).sum := by
  induction items with
  | nil => rfl
  | cons item items ih =>
    rw [accessListBytes] at ih
    simp only [accessListBytes, List.flatMap_cons, List.length_append, Address.length_bytes,
      length_flatMap_of_width Word.length_bytes, ih, List.map_cons, List.sum_cons,
      List.length_cons]
    omega

theorem length_listBytes (r : TransactionRequest) :
    r.listBytes.length
      = 20 * r.accessList.length + 32 * (r.slotCounts.sum + r.blobHashes.length) := by
  rw [listBytes, List.length_append, length_accessListBytes,
    length_flatMap_of_width Word.length_bytes, slotCounts]
  omega

/-- Once it is known how many slots each account announces, the bytes of the lists fix them. -/
theorem lists_eq_of_slotCounts {r r' : TransactionRequest} (hcounts : r.slotCounts = r'.slotCounts)
    (h : r.listBytes = r'.listBytes) :
    r.accessList = r'.accessList ∧ r.blobHashes = r'.blobHashes := by
  obtain ⟨hlist, hblobs⟩ := accessListBytes_append_inj hcounts h
  refine ⟨hlist, ?_⟩
  -- Words are equally long, so equal bytes hold equally many.
  have hlength := congrArg List.length hblobs
  rw [length_flatMap_of_width Word.length_bytes, length_flatMap_of_width Word.length_bytes]
    at hlength
  refine (Word.prefixFree_bytes.flatMap_inj (by omega) (congrArg (· ++ []) hblobs)).1

/-- Requests that are signed alike and announce equally many slots at each place are equal. -/
theorem eq_of_slotCounts {r r' : TransactionRequest} (hothers : r.withoutLists = r'.withoutLists)
    (hlists : r.listBytes = r'.listBytes) (hcounts : r.slotCounts = r'.slotCounts) : r = r' := by
  obtain ⟨hlist, hblobs⟩ := lists_eq_of_slotCounts hcounts hlists
  cases r
  cases r'
  simp_all [withoutLists]

/-! ## Other ways to cut the same bytes -/

theorem exists_words (n : Nat) (bs : Bytes) (hlength : bs.length = 32 * n) :
    ∃ words : List Word, words.length = n ∧ words.flatMap Word.bytes = bs :=
  exists_flatMap_of_width exists_beBytes n bs hlength

/-- Accounts that announce no slot. -/
def bareItems (addresses : List Address) : List AccessListItem := addresses.map (⟨·, []⟩)

theorem accessListBytes_bareItems (addresses : List Address) :
    accessListBytes (bareItems addresses) = addresses.flatMap Address.bytes := by
  simp [accessListBytes, bareItems, List.flatMap_map]

theorem exists_bareItems (m : Nat) (bs : Bytes) (hlength : bs.length = 20 * m) :
    ∃ addresses : List Address,
      addresses.length = m ∧ accessListBytes (bareItems addresses) = bs := by
  obtain ⟨addresses, hm, h⟩ : ∃ addresses : List Address,
      addresses.length = m ∧ addresses.flatMap Address.bytes = bs :=
    exists_flatMap_of_width exists_beBytes m bs hlength
  exact ⟨addresses, hm, by rw [accessListBytes_bareItems, h]⟩

/-- Bytes as long as `m` addresses and `n` words are the bytes of `m` accounts that announce no
slot, with `n` blobs. -/
theorem exists_bareItems_append (m n : Nat) (bs : Bytes) (hlength : bs.length = 20 * m + 32 * n) :
    ∃ (addresses : List Address) (blobs : List Hash), addresses.length = m ∧ blobs.length = n ∧
      accessListBytes (bareItems addresses) ++ blobs.flatMap Word.bytes = bs := by
  obtain ⟨addresses, hm, haddresses⟩ :=
    exists_bareItems m (bs.take (20 * m)) (by rw [List.length_take]; omega)
  obtain ⟨blobs, hn, hblobs⟩ :=
    exists_words n (bs.drop (20 * m)) (by rw [List.length_drop]; omega)
  exact ⟨addresses, blobs, hm, hn, by rw [haddresses, hblobs, List.take_append_drop]⟩

/-- They are also the bytes of an account that announces `n` slots, with `m - 1` accounts that
announce none. -/
theorem exists_cons_bareItems (m n : Nat) (bs : Bytes)
    (hlength : bs.length = 20 * (m + 1) + 32 * n) :
    ∃ (address : Address) (keys : List Hash) (addresses : List Address), addresses.length = m ∧
      accessListBytes (⟨address, keys⟩ :: bareItems addresses) = bs := by
  obtain ⟨address, haddress⟩ :=
    exists_beBytes (n := 20) (bs.take 20) (by rw [List.length_take]; omega)
  obtain ⟨keys, -, hkeys⟩ :=
    exists_words n ((bs.drop 20).take (32 * n))
      (by rw [List.length_take, List.length_drop]; omega)
  obtain ⟨addresses, hm, haddresses⟩ :=
    exists_bareItems m ((bs.drop 20).drop (32 * n)) (by simp only [List.length_drop]; omega)
  refine ⟨address, keys, addresses, hm, ?_⟩
  rw [accessListBytes] at haddresses ⊢
  rw [List.flatMap_cons, haddresses]
  show Address.bytes address ++ keys.flatMap Word.bytes ++ _ = bs
  rw [hkeys, Address.bytes, haddress, List.append_assoc, List.take_append_drop,
    List.take_append_drop]

/-- A request with lists that are written like those it has is signed alike. -/
theorem signingData_withLists (r : TransactionRequest) {items : List AccessListItem}
    {blobs : List Hash}
    (h : accessListBytes items ++ blobs.flatMap Word.bytes = r.listBytes) :
    { r with accessList := items, blobHashes := blobs }.signingData = r.signingData := by
  rw [signingData_eq_append, signingData_eq_append r, ← h]
  rfl

/-! ## Requests that are signed alike -/

/-- Whether the lists of a request are so small that their bytes can be cut in one way only: no
account announces a slot, and there are fewer than five blobs and no account or fewer than eight
accounts and no blob. -/
def HasOneCut (r : TransactionRequest) : Prop :=
  r.slotCounts.sum = 0 ∧
    ((r.accessList = [] ∧ r.blobHashes.length < 5) ∨
      (r.blobHashes = [] ∧ r.accessList.length < 8))

theorem slotCounts_eq_replicate {r : TransactionRequest} (h : r.slotCounts.sum = 0) :
    r.slotCounts = List.replicate r.accessList.length 0 :=
  List.eq_replicate_iff.mpr
    ⟨by rw [slotCounts, List.length_map], List.sum_eq_zero_iff_forall_eq_nat.mp h⟩

/-- The counts of such small lists can be read from the length of their bytes. -/
theorem HasOneCut.slotCounts_eq {r r' : TransactionRequest} (hcut : r.HasOneCut)
    (h : r'.listBytes = r.listBytes) : r'.slotCounts = r.slotCounts := by
  obtain ⟨hslots, hsmall⟩ := hcut
  have hlength := congrArg List.length h
  rw [length_listBytes, length_listBytes, hslots] at hlength
  -- The number `20 * m + 32 * n` has one solution while `m` is below 8 and `n` below 5.
  have hsolution : r'.accessList.length = r.accessList.length ∧ r'.slotCounts.sum = 0 := by
    rcases hsmall with ⟨hitems, hblobs⟩ | ⟨hblobs, hitems⟩
    · rw [hitems, List.length_nil] at hlength ⊢
      have hnone : r'.accessList.length = 0 := by omega
      rw [slotCounts, List.eq_nil_of_length_eq_zero hnone]
      exact ⟨rfl, rfl⟩
    · rw [hblobs, List.length_nil] at hlength
      exact ⟨by omega, by omega⟩
  rw [slotCounts_eq_replicate hsolution.2, slotCounts_eq_replicate hslots, hsolution.1]

/-- The bytes of larger lists can be cut in a second way. -/
theorem exists_other_lists {r : TransactionRequest} (hcut : ¬ r.HasOneCut) :
    ∃ (items : List AccessListItem) (blobs : List Hash),
      accessListBytes items ++ blobs.flatMap Word.bytes = r.listBytes ∧
        (items.length ≠ r.accessList.length ∨ blobs.length ≠ r.blobHashes.length) := by
  have hlength := length_listBytes r
  have hlarge : r.slotCounts.sum = 0 →
      ¬ (r.accessList = [] ∧ r.blobHashes.length < 5) ∧
        ¬ (r.blobHashes = [] ∧ r.accessList.length < 8) :=
    fun hslots => not_or.mp fun hsmall => hcut ⟨hslots, hsmall⟩
  rcases hm : r.accessList.length with _ | m
  · -- No account, hence at least five words: five of them are eight addresses.
    have hitems : r.accessList = [] := List.eq_nil_of_length_eq_zero hm
    have hslots : r.slotCounts.sum = 0 := by rw [slotCounts, hitems]; rfl
    have hblobs : 5 ≤ r.blobHashes.length :=
      Nat.le_of_not_lt fun hlt => (hlarge hslots).1 ⟨hitems, hlt⟩
    obtain ⟨addresses, blobs, haddresses, -, h⟩ :=
      exists_bareItems_append 8 (r.blobHashes.length - 5) r.listBytes (by omega)
    refine ⟨bareItems addresses, blobs, h, .inl ?_⟩
    rw [bareItems, List.length_map, haddresses]
    decide
  by_cases hwords : r.slotCounts.sum + r.blobHashes.length = 0
  · -- No word, hence at least eight accounts: the bytes of eight of them are five words.
    have hblobs : r.blobHashes.length = 0 := by omega
    have hitems : 8 ≤ r.accessList.length := Nat.le_of_not_lt fun hlt =>
      (hlarge (by omega)).2 ⟨List.eq_nil_of_length_eq_zero hblobs, hlt⟩
    obtain ⟨addresses, blobs, -, hfive, h⟩ :=
      exists_bareItems_append (r.accessList.length - 8) 5 r.listBytes (by omega)
    exact ⟨bareItems addresses, blobs, h, .inr (by omega)⟩
  -- An account and a word: all words may be blobs, and all of them may be slots.
  by_cases hblobs : r.blobHashes.length = 0
  · obtain ⟨addresses, blobs, -, hn, h⟩ :=
      exists_bareItems_append (m + 1) r.slotCounts.sum r.listBytes (by omega)
    exact ⟨bareItems addresses, blobs, h, .inr (by omega)⟩
  · obtain ⟨address, keys, addresses, -, h⟩ :=
      exists_cons_bareItems m (r.slotCounts.sum + r.blobHashes.length) r.listBytes
        (by omega)
    refine ⟨⟨address, keys⟩ :: bareItems addresses, [], ?_, .inr fun hnone => hblobs hnone.symm⟩
    rw [List.flatMap_nil, List.append_nil, h]

/-- What the signed bytes bind. A request that is signed like `r` differs from it in the two
lists at most, and only if it announces other counts of slots; and none but `r` itself is signed
like `r` exactly if the lists of `r` are small enough to have one cut. -/
theorem signingData_binds (r : TransactionRequest) (hr : r.input.length < 2 ^ 64) :
    (∀ r' : TransactionRequest, r'.input.length < 2 ^ 64 → r'.signingData = r.signingData →
      r'.withoutLists = r.withoutLists ∧ (r'.slotCounts = r.slotCounts → r' = r)) ∧
    ((∀ r' : TransactionRequest, r'.input.length < 2 ^ 64 → r'.signingData = r.signingData →
      r' = r) ↔ r.HasOneCut) := by
  have hbinds : ∀ r' : TransactionRequest, r'.input.length < 2 ^ 64 →
      r'.signingData = r.signingData →
        r'.withoutLists = r.withoutLists ∧ r'.listBytes = r.listBytes :=
    fun r' hr' => (signingData_eq_iff hr' hr).mp
  refine ⟨fun r' hr' h => ?_, fun hunique => ?_, fun hcut r' hr' h => ?_⟩
  · obtain ⟨hothers, hlists⟩ := hbinds r' hr' h
    exact ⟨hothers, eq_of_slotCounts hothers hlists⟩
  -- With more than one cut, another request has the same bytes.
  · by_contra hcut
    obtain ⟨items, blobs, hlists, hother⟩ := exists_other_lists hcut
    have hsame := hunique { r with accessList := items, blobHashes := blobs } hr
      (signingData_withLists r hlists)
    have hitems : items = r.accessList := congrArg accessList hsame
    have hblobs : blobs = r.blobHashes := congrArg blobHashes hsame
    rcases hother with hne | hne
    · exact hne (congrArg List.length hitems)
    · exact hne (congrArg List.length hblobs)
  · obtain ⟨hothers, hlists⟩ := hbinds r' hr' h
    exact eq_of_slotCounts hothers hlists (hcut.slotCounts_eq hlists)

/-- A call that announces one slot of one account. -/
def slotCall : TransactionRequest where
  chainId := 1
  sender := 0x04b678962787ccd195a8e324d4c6bc4d5727f82b
  recipient := some 0x2222222222222222222222222222222222222222
  gasLimit := 200000
  maxFee := 10
  maxPriorityFee := 2
  accessList := [
    { address := 0x3333333333333333333333333333333333333333
      storageKeys := [0x0155555555555555555555555555555555555555555555555555555555555555] }]

/-- The same call with the word of that slot as a blob hash. -/
def blobCall : TransactionRequest :=
  { slotCall with
    accessList := [{ address := 0x3333333333333333333333333333333333333333, storageKeys := [] }]
    blobHashes := [0x0155555555555555555555555555555555555555555555555555555555555555] }

/-- The same call with four blobs and no accounts. -/
def blobsCall : TransactionRequest :=
  { slotCall.withoutLists with
    blobHashes := (List.range 4).map fun n => (1#8 ++ BitVec.ofNat 248 n : BitVec 256) }

/-- The same call with seven accounts, without a slot, and no blobs. -/
def accountsCall : TransactionRequest :=
  { slotCall.withoutLists with
    accessList := (List.range 7).map fun n =>
      { address := BitVec.ofNat 160 (n + 1), storageKeys := [] } }

/-- Four blobs, or seven accounts without a slot, leave the signed bytes to one request. An account
with a slot does not. -/
theorem signingData_binds_shortLists :
    (blobsCall.input.length < 2 ^ 64 ∧ ∀ r' : TransactionRequest, r'.input.length < 2 ^ 64 →
      r'.signingData = blobsCall.signingData → r' = blobsCall) ∧
    (accountsCall.input.length < 2 ^ 64 ∧ ∀ r' : TransactionRequest, r'.input.length < 2 ^ 64 →
      r'.signingData = accountsCall.signingData → r' = accountsCall) ∧
    ¬ ∀ r' : TransactionRequest, r'.input.length < 2 ^ 64 →
      r'.signingData = slotCall.signingData → r' = slotCall := by
  refine ⟨⟨by decide, ?_⟩, ⟨by decide, ?_⟩, ?_⟩
  · exact (signingData_binds blobsCall (by decide)).2.mpr ⟨rfl, .inl ⟨rfl, by decide⟩⟩
  · exact (signingData_binds accountsCall (by decide)).2.mpr ⟨by decide, .inr ⟨rfl, by decide⟩⟩
  · rw [(signingData_binds slotCall (by decide)).2]
    rintro ⟨hkeys, -⟩
    exact absurd hkeys (by decide)

/-- A slot of the access list and a blob hash are signed alike. -/
theorem signingData_slot_as_blob :
    slotCall ≠ blobCall ∧ slotCall.signingData = blobCall.signingData := by
  decide +kernel

end TransactionRequest

end BlockExecution

import Skaled.Queue.Categories

/-! # The indexes agree after every run

Every operation keeps the containers and counters of the queue in agreement as
long as no transaction without a sender is imported and the transactions in the
queue do not fill the 32 bits of its byte counters. A transaction whose signature
does not recover gets as far as the comparison with another transaction, which
throws; by then its sender's map has an entry for it, with an iterator to nothing.
-/

namespace Skaled

open EStateM (bind_apply bind_ok get_bind map_apply modify_bind tryCatch_apply)
open Multiset (card_add card_cons card_le_card coe_card coe_nodup cons_add le_add_right map_coe
  map_cons nodup_cons nodup_zero)

def TransactionQueue.all (q : TransactionQueue) : Multiset PooledTransaction :=
  TransactionQueue.pending q.current + q.futures

/-- The containers and counters of the queue describe the same transactions. -/
structure IndexesAgree (q : TransactionQueue) : Prop where
  known : ∀ h, h ∈ q.known ↔ ∃ t ∈ q.all, t.hash = h
  byHash : TransactionQueue.ByHash q.currentByHash q.current
  byNonce : TransactionQueue.ByNonce q.currentByAddressAndNonce q.current
  oneByHash : (q.current.map fun node => node.transaction.hash).Nodup
  oneByNonce : (q.current.map fun node =>
    (node.transaction.origin, node.transaction.nonce)).Nodup
  disjoint : ∀ a n, (q.currentByAddressAndNonce.find a n).isSome = true →
    q.future.find a n = none
  futureKeyed : ∀ a n v, q.future.find a n = some v →
    v.transaction.origin = a ∧ v.transaction.nonce = n
  currentNoEmpty : q.currentByAddressAndNonce.NoEmpty
  futureNoEmpty : q.future.NoEmpty
  futureSize : q.futureSize.toNat = q.futures.card
  currentSizeBytes : q.currentSizeBytes.toNat =
    TransactionQueue.bytes (TransactionQueue.pending q.current)
  futureSizeBytes : q.futureSizeBytes.toNat = TransactionQueue.bytes q.futures

namespace TransactionQueue

theorem Indexed.agree {q : TransactionQueue} (h : q.Indexed) : IndexesAgree q where
  known := by
    intro hash
    rw [h.known, Multiset.mem_map, all]
  byHash := h.linked.byHash
  byNonce := h.linked.byNonce
  oneByHash := by
    have hnodup := (h.distinct.mono (le_add_right _ _)).hashes
    rw [pending, map_coe, coe_nodup, List.map_map] at hnodup
    exact hnodup
  oneByNonce := by
    have hnodup := (h.distinct.mono (le_add_right _ _)).places
    rw [pending, map_coe, coe_nodup, List.map_map] at hnodup
    exact hnodup
  disjoint := by
    intro a n hsome
    obtain ⟨it, hfind⟩ := Option.isSome_iff_exists.mp hsome
    obtain ⟨node, hnode, -, rfl, rfl⟩ := (h.linked.byNonce a n it).mp hfind
    exact find_future_eq_none h.stored h.distinct hnode
  futureKeyed := h.stored.keyed
  currentNoEmpty := h.linked.noEmpty
  futureNoEmpty := h.stored.noEmpty
  futureSize := h.futureCounted.size
  currentSizeBytes := h.linked.counted
  futureSizeBytes := h.futureCounted.bytes

/-! ## Importing a transaction -/

section Import

variable {q : TransactionQueue} {t : PooledTransaction}

structure Fits (q : TransactionQueue) (t : PooledTransaction) : Prop where
  sender : t.sender.isSome = true
  valid : t.isInvalid = false
  small : bytes q.all + t.size < 2 ^ 32

variable {q' : TransactionQueue}

theorem Fits.of_shrinks (h : q.Fits t) (hshrinks : Shrinks q q') :
    q'.Fits t where
  sender := h.sender
  valid := h.valid
  small := by
    have hle := bytes_mono (add_le_add hshrinks.current hshrinks.futures)
    exact (Nat.add_le_add_right hle _).trans_lt h.small

/-- A transaction with a new hash and a new place fits in with the others. -/
theorem Indexed.distinct_cons (h : q.Indexed) (hfits : q.Fits t) (hnew : t.hash ∉ q.known)
    (hcurrent : q.currentByAddressAndNonce.find t.origin t.nonce = none)
    (hfuture : q.future.find t.origin t.nonce = none) : Distinct (t ::ₘ q.all) where
  hashes := by
    rw [map_cons, nodup_cons]
    exact ⟨fun hmem => hnew ((h.known _).mpr hmem), h.distinct.hashes⟩
  places := by
    rw [map_cons, nodup_cons]
    refine ⟨fun hmem => ?_, h.distinct.places⟩
    obtain ⟨u, hu, hplace⟩ := Multiset.mem_map.mp hmem
    obtain ⟨horigin, hnonce⟩ := Prod.ext_iff.mp hplace
    dsimp only at horigin hnonce
    obtain hin | hin := Multiset.mem_add.mp hu
    · obtain ⟨node, hnode, rfl⟩ := mem_pending.mp hin
      have hfind := (h.linked.byNonce _ _ _).mpr ⟨node, hnode, rfl, horigin, hnonce⟩
      rw [hcurrent] at hfind
      cases hfind
    · obtain ⟨v, hv, rfl⟩ := Multiset.mem_map.mp hin
      obtain ⟨a, n, hfind⟩ := NestedMap.mem_values.mp hv
      obtain ⟨rfl, rfl⟩ := h.stored.keyed a n v hfind
      rw [horigin, hnonce, hfuture] at hfind
      cases hfind
  senders := by
    intro u hu
    obtain rfl | hold := Multiset.mem_cons.mp hu
    · exact hfits.sender
    · exact h.distinct.senders u hold
  valid := by
    intro u hu
    obtain rfl | hold := Multiset.mem_cons.mp hu
    · exact hfits.valid
    · exact h.distinct.valid u hold
  small := by
    rw [bytes_cons, Nat.add_comm]
    exact hfits.small

/-- A transaction that enters without changing the order, and so do those that may
follow it from the future. -/
structure Admissible (q : TransactionQueue) (t : PooledTransaction) : Prop where
  insertable : q.Insertable t.origin t.nonce
  notLast : t.nonce.toNat + 1 < 2 ^ 256

/-- There is room for the transaction and for those of its sender in the future,
which may follow it. A future transaction finds room even if all others come. -/
structure Room (q : TransactionQueue) (t : PooledTransaction) (isFuture : Bool) : Prop where
  count : q.current.length + (q.futures.filter (·.origin = t.origin)).card < q.limit.toNat
  size : bytes (pending q.current + q.futures.filter (·.origin = t.origin)) + t.size ≤
    q.currentSizeBytesLimit.toNat
  future : isFuture = true → q.all.card < q.futureLimit.toNat ∧
    bytes q.all + t.size ≤ q.futureSizeBytesLimit.toNat

/-- `insertCurrent_WITH_LOCK`. -/
theorem insertCurrent_run (h : q.Indexed) (hdistinct : Distinct (t ::ₘ q.all)) :
    ∃ q', insertCurrent t.hash t q = .ok () q' ∧ q'.Indexed ∧ q'.futures ≤ q.futures ∧
      SameLimits q q' ∧ (q.Ordered → q.Admissible t → q'.Ordered) ∧ q'.all = t ::ₘ q.all ∧
      t.hash ∈ q'.known ∧ ∀ isFuture, q.Room t isFuture → q'.currentTooLarge = false := by
  have hown : Distinct (t ::ₘ pending q.current) := by
    refine hdistinct.mono (Multiset.cons_le_cons t ?_)
    exact le_add_right _ _
  have hlookup : q.currentByHash.lookup t.hash = none := by
    cases hfound : q.currentByHash.lookup t.hash with
    | none => rfl
    | some id =>
      obtain ⟨node, hnode, -, hhash⟩ := (h.linked.byHash _ _).mp hfound
      exact absurd hhash (hown.hash_ne node hnode)
  obtain ⟨position, hle, hposition, hput⟩ := putCurrent_run hown.senders
  have hpending := pending_placed (t := t) hle
  have hall : pending (q.placed t position).current + (q.placed t position).futures =
      t ::ₘ q.all := by
    rw [hpending, cons_add]
    rfl
  have hbalanced : (q.placed t position).Balanced :=
    ⟨h.linked.placed hown hle, h.stored, by rwa [hall], h.futureCounted.size,
      h.futureCounted.bytes⟩
  obtain ⟨q₁, hmake, hmade⟩ := makeCurrent_run hbalanced t
  refine ⟨{ q₁ with known := insert t.hash q₁.known }, ?_, ⟨?_, ?_⟩, hmade.futures, ?_,
    fun hordered hadmissible => ?_, hmade.all.trans hall, Finset.mem_insert_self _ _,
    fun isFuture hroom => ?_⟩
  · rw [insertCurrent, get_bind]
    rw [hlookup, if_neg (by simp), bind_ok hput]
    rw [bind_apply, hmake]
    rfl
  · exact { hmade.balanced with
      linked := { hmade.balanced.linked with }
      futureCounted := { hmade.balanced.futureCounted with } }
  · intro hash
    change hash ∈ insert t.hash q₁.known ↔
      hash ∈ (pending q₁.current + q₁.futures).map (·.hash)
    rw [hmade.all, hall, hmade.known, Finset.mem_insert, map_cons, Multiset.mem_cons]
    exact or_congr_right (h.known hash)
  · exact { hmade.limits with }
  · have hplaced := hordered.placed h.linked hown hadmissible.insertable hposition
    refine (hmade.ordered hplaced fun _ => hadmissible.insertable.next hle ?_).congr ⟨rfl, rfl⟩
    have hone : (1 : U256).toNat = 1 := rfl
    rw [BitVec.toNat_add, hone, Nat.mod_eq_of_lt hadmissible.notLast]
    exact Nat.lt_succ_self _
  · have hle := hmade.entered
    rw [hpending, cons_add] at hle
    have hcount := card_le_card hle
    have hbytes := bytes_mono hle
    rw [pending, coe_card, List.length_map, card_cons, card_add,
      pending, coe_card, List.length_map] at hcount
    rw [bytes_cons] at hbytes
    refine currentTooLarge_eq_false.mpr ⟨?_, ?_⟩
    · change q₁.current.length ≤ q₁.limit.toNat
      rw [hmade.limits.limit]
      exact hcount.trans hroom.count
    · change q₁.currentSizeBytes.toNat ≤ q₁.currentSizeBytesLimit.toNat
      rw [hmade.limits.currentSizeBytesLimit, hmade.balanced.linked.counted]
      exact hbytes.trans ((Nat.add_comm _ _).trans_le hroom.size)

/-- What every operation keeps. -/
structure Kept (q q' : TransactionQueue) : Prop where
  indexed : q'.Indexed
  limits : SameLimits q q'
  future : q.futureTooLarge = false → q'.futureTooLarge = false

theorem Kept.of_le (h : q.Indexed) (h' : q'.Indexed) (hfutures : q'.futures ≤ q.futures)
    (hlimits : SameLimits q q') : Kept q q' := by
  refine ⟨h', hlimits, fun hsmall => ?_⟩
  rw [futureTooLarge_eq_false] at hsmall ⊢
  rw [h'.futureCounted.size, h'.futureCounted.bytes, hlimits.futureLimit,
    hlimits.futureSizeBytesLimit]
  rw [h.futureCounted.size, h.futureCounted.bytes] at hsmall
  exact ⟨(card_le_card hfutures).trans hsmall.1, (bytes_mono hfutures).trans hsmall.2⟩

theorem Kept.trans {q'' : TransactionQueue} (h : Kept q q') (h' : Kept q' q'') : Kept q q'' :=
  ⟨h'.indexed, h.limits.trans h'.limits, fun hsmall => h'.future (h.future hsmall)⟩

theorem MadeFuture.currentTooLarge_eq (h : q.Linked) (hmade : MadeFuture q q')
    (hsmall : q.currentTooLarge = false) : q'.currentTooLarge = false := by
  have hle := pending_le_of_sublist hmade.sublist
  rw [currentTooLarge_eq_false] at hsmall ⊢
  rw [hmade.indexed.linked.counted, hmade.limits.limit, hmade.limits.currentSizeBytesLimit]
  rw [h.counted] at hsmall
  exact ⟨hmade.sublist.length_le.trans hsmall.1, (bytes_mono hle).trans hsmall.2⟩

/-- The hashes of dropped transactions are not part of the agreement. -/
theorem Indexed.withDropped (h : q.Indexed) (dropped : List H256) : Indexed { q with dropped } :=
  { h with linked := { h.linked with }, futureCounted := { h.futureCounted with } }

/-- Only the order of the dropped hashes changes. -/
theorem check_run (q : TransactionQueue) (hash : H256) (ik : IfDropped) :
    ∃ result dropped, check hash ik q = .ok result { q with dropped } ∧
      (result = .success → hash ∉ q.known) ∧
      (result ≠ .success ↔ hash ∈ q.known ∨ hash ∈ q.dropped ∧ ik = .ignore) := by
  rw [check, get_bind]
  split
  next hknown => exact ⟨_, q.dropped, rfl, nofun, fun _ => .inl hknown, fun _ => nofun⟩
  next hnew =>
    split
    next hdropped =>
      refine ⟨_, _, rfl, fun _ => hnew, ?_⟩
      cases ik with
      | ignore => exact ⟨fun _ => .inr ⟨hdropped, rfl⟩, fun _ => nofun⟩
      | retry => exact ⟨absurd rfl, fun hwhy => absurd hwhy (by simp [hnew])⟩
    next hkept =>
      exact ⟨_, q.dropped, rfl, fun _ => hnew, absurd rfl, fun hwhy =>
        absurd hwhy (not_or.mpr ⟨hnew, fun hin => hkept hin.1⟩)⟩

/-- A pending transaction has the sender and nonce already. -/
def Occupied (q : TransactionQueue) (t : PooledTransaction) : Prop :=
  ∃ node ∈ q.current, node.transaction.origin = t.origin ∧
    node.transaction.nonce = t.nonce

/-- What came of a transaction that is not known yet. -/
structure Managed (q : TransactionQueue) (t : PooledTransaction) (result : ImportResult)
    (q' : TransactionQueue) : Prop where
  kept : Kept q q'
  small : result = .success → q'.currentTooLarge = false
  ordered : q.Ordered → q.Occupied t ∨ q.Admissible t → q'.Ordered
  refused : result ≠ .success → q' = q ∧
    ((q.currentByAddressAndNonce.find t.origin t.nonce).isSome = true ∨
      (q.future.find t.origin t.nonce).isSome = true)
  taken : ∀ isFuture, q.Room t isFuture → result = .success →
    q'.all = t ::ₘ q.all ∧ t.hash ∈ q'.known

/-- `manageImport_WITH_LOCK`: nothing throws. -/
theorem manageImport_run (h : q.Indexed) (hfits : q.Fits t) (hnew : t.hash ∉ q.known) :
    ∃ result q', manageImport t.hash t q = .ok result q' ∧ Managed q t result q' := by
  suffices ∃ result q', tryImport t.hash t q = .ok result q' ∧ Managed q t result q' by
    obtain ⟨result, q', hrun, hkept⟩ := this
    refine ⟨result, q', ?_, hkept⟩
    rw [manageImport, tryCatch_apply, hrun]
  have hrefused hwhy : Managed q t .sameNonceAlreadyInQueue q :=
    ⟨.of_le h h le_rfl (.refl q), (fun heq => by cases heq), fun hordered _ => hordered,
      fun _ => ⟨rfl, hwhy⟩, fun _ _ heq => by cases heq⟩
  rw [tryImport, get_bind]
  split
  next hcurrent => exact ⟨_, q, rfl, hrefused (.inl hcurrent)⟩
  next hcurrent =>
    split
    next hfuture => exact ⟨_, q, rfl, hrefused (.inr hfuture)⟩
    next hfuture =>
      rw [Option.not_isSome_iff_eq_none] at hcurrent hfuture
      obtain ⟨q₁, hinsert, hindexed, hfutures, hlimits, hordered₁, hall, hknown, hroom⟩ :=
        insertCurrent_run h (h.distinct_cons hfits hnew hcurrent hfuture)
      obtain ⟨q₂, hloop, ⟨hindexed', hshrinks, hordered₂⟩, hlarge, hnone⟩ :=
        dropCurrent_loop hindexed
      refine ⟨.success, q₂, ?_, ?_, fun _ => hlarge, fun hordered hadmissible => ?_, absurd rfl,
        fun isFuture hfit _ => ?_⟩
      · rw [bind_ok hinsert]
        rw [get_bind]
        rw [bind_apply, hloop]
        rfl
      · exact .of_le h hindexed' (hshrinks.futures.trans hfutures)
          (hlimits.trans hshrinks.limits)
      · refine hordered₂ (hordered₁ hordered (hadmissible.resolve_left ?_))
        rintro ⟨node, hnode, horigin, hnonce⟩
        have hfind := (h.linked.byNonce _ _ _).mpr ⟨node, hnode, rfl, horigin, hnonce⟩
        rw [hcurrent] at hfind
        cases hfind
      · rw [hnone (hroom isFuture hfit)]
        exact ⟨hall, hknown⟩

theorem setFuture_kept (h : q.Indexed) (hash : H256) :
    ∃ q', setFuture hash q = .ok () q' ∧ Kept q q' ∧ MadeFuture q q' := by
  obtain ⟨q', hrun, hmade, hsmall⟩ := setFuture_run h hash
  exact ⟨q', hrun, ⟨hmade.indexed, hmade.limits, hsmall⟩, hmade⟩

theorem setFuture_of_new (h : q.Indexed) {hash : H256} (hnew : hash ∉ q.known) :
    setFuture hash q = .ok () q := by
  rw [setFuture, get_bind]
  cases hlookup : q.currentByHash.lookup hash with
  | none => rfl
  | some id =>
    obtain ⟨node, hnode, -, rfl⟩ := (h.linked.byHash _ _).mp hlookup
    refine absurd ((h.known _).mpr (Multiset.mem_map_of_mem _ ?_)) hnew
    exact Multiset.mem_add.mpr (.inl (mem_pending.mpr ⟨node, hnode, rfl⟩))

/-- A future transaction of the same sender and nonce is only taken out for a
transaction that is then accepted. -/
def Replaces (q : TransactionQueue) (t : PooledTransaction) (ik : IfDropped) : Prop :=
  ∀ v, q.future.find t.origin t.nonce = some v →
    t.hash ∉ q.known.erase v.transaction.hash ∧ (t.hash ∈ q.dropped → ik = .retry)

structure Imported (q : TransactionQueue) (t : PooledTransaction) (ik : IfDropped)
    (isFuture : Bool) (result : ImportResult) (q' : TransactionQueue) : Prop where
  kept : Kept q q'
  small : result = .success → q'.currentTooLarge = false
  ordered : q.Ordered → t.hasZeroSignature = true ∨ q.Occupied t ∨ q.Admissible t → q'.Ordered
  refused : q.Replaces t ik → result ≠ .success → ∃ dropped, q' = { q with dropped }
  taken : q.Room t isFuture → result = .success → t.hash ∈ q'.known

theorem Room.of_shrinks {isFuture : Bool} (h : q.Room t isFuture) (hshrinks : Shrinks q q') :
    q'.Room t isFuture := by
  have hfutures := Multiset.filter_le_filter (·.origin = t.origin) hshrinks.futures
  have hall : q'.all ≤ q.all := add_le_add hshrinks.current hshrinks.futures
  have hcount := card_le_card (add_le_add hshrinks.current hfutures)
  have hsize := bytes_mono (add_le_add hshrinks.current hfutures)
  rw [card_add, card_add, pending, pending, coe_card, coe_card, List.length_map,
    List.length_map] at hcount
  refine ⟨?_, ?_, fun htrue => ?_⟩
  · rw [hshrinks.limits.limit]
    exact hcount.trans_lt h.count
  · rw [hshrinks.limits.currentSizeBytesLimit]
    exact (Nat.add_le_add_right hsize _).trans h.size
  · rw [hshrinks.limits.futureLimit, hshrinks.limits.futureSizeBytesLimit]
    obtain ⟨hfutureCount, hfutureSize⟩ := h.future htrue
    exact ⟨(card_le_card hall).trans_lt hfutureCount,
      (Nat.add_le_add_right (bytes_mono hall) _).trans hfutureSize⟩

/-- Sender and nonce are not in `current` if they are in the future. -/
theorem Indexed.find_eq_none (h : q.Indexed) {v : VerifiedTransaction}
    (hfind : q.future.find t.origin t.nonce = some v) :
    q.currentByAddressAndNonce.find t.origin t.nonce = none := by
  cases hcurrent : q.currentByAddressAndNonce.find t.origin t.nonce with
  | none => rfl
  | some handle =>
    obtain ⟨node, hnode, -, horigin, hnonce⟩ := (h.linked.byNonce _ _ _).mp hcurrent
    have hnone := find_future_eq_none h.stored h.distinct hnode
    rw [horigin, hnonce, hfind] at hnone
    cases hnone

/-- The queue after a future transaction of the same place was taken out and the
hash was looked up. -/
structure Checked (q : TransactionQueue) (t : PooledTransaction) (ik : IfDropped)
    (checked : ImportResult) (q' : TransactionQueue) : Prop where
  indexed : q'.Indexed
  shrinks : Shrinks q q'
  current : SameCurrent q q'
  new : checked = .success → t.hash ∉ q'.known
  refused : q.Replaces t ik → (checked ≠ .success ∨
    (q'.currentByAddressAndNonce.find t.origin t.nonce).isSome = true ∨
      (q'.future.find t.origin t.nonce).isSome = true) → ∃ dropped, q' = { q with dropped }

theorem checked_run (h : q.Indexed) (t : PooledTransaction) (ik : IfDropped) :
    ∃ q₁ checked q₂, takeFuture t.origin t.nonce q = .ok () q₁ ∧
      check t.hash ik q₁ = .ok checked q₂ ∧ Checked q t ik checked q₂ := by
  obtain ⟨q₁, htake, hindexed, hshrinks, hcurrent, hdropped, hnone, hsome⟩ :=
    takeFuture_run h t.origin t.nonce
  obtain ⟨checked, dropped, hcheck, hnew, hknown⟩ := check_run q₁ t.hash ik
  refine ⟨q₁, checked, _, htake, hcheck, hindexed.withDropped dropped,
    { hshrinks with limits := { hshrinks.limits with } }, { hcurrent with }, hnew,
    fun hreplaces hreason => ⟨dropped, ?_⟩⟩
  cases hfind : q.future.find t.origin t.nonce with
  | none => rw [hnone hfind]
  | some v =>
    -- a transaction that replaces another one is accepted
    obtain ⟨hother, hretry⟩ := hreplaces v hfind
    obtain ⟨hknown₁, hfuture₁⟩ := hsome v hfind
    rw [hfuture₁, hcurrent.index, h.find_eq_none hfind] at hreason
    obtain hin | ⟨hin, hik⟩ := hknown.mp (hreason.resolve_right (by simp))
    · exact absurd (hknown₁ ▸ hin) hother
    · rw [hretry (hdropped ▸ hin)] at hik
      cases hik

/-- A transaction that was imported as a future one stays known if there is room. -/
theorem Managed.setFuture (h : q.Indexed) (hnew : t.hash ∉ q.known) {result : ImportResult}
    (hmanaged : Managed q t result q') :
    ∃ q'', setFuture t.hash q' = .ok () q'' ∧ Kept q' q'' ∧
      (q'.currentTooLarge = false → q''.currentTooLarge = false) ∧ (q'.Ordered → q''.Ordered) ∧
      (result ≠ .success → q'' = q') ∧
      (q.Room t true → result = .success → t.hash ∈ q''.known) := by
  obtain ⟨q'', hset, hkept, hmade⟩ := setFuture_kept hmanaged.kept.indexed t.hash
  refine ⟨q'', hset, hkept, hmade.currentTooLarge_eq hmanaged.kept.indexed.linked, hmade.ordered,
    fun hne => ?_, fun hroom hret => ?_⟩
  · obtain ⟨rfl, -⟩ := hmanaged.refused hne
    rw [setFuture_of_new h hnew] at hset
    cases hset
    rfl
  · obtain ⟨hall, hknown⟩ := hmanaged.taken true hroom hret
    obtain ⟨hcount, hsize⟩ := hroom.future rfl
    rw [hmade.known]
    · exact hknown
    · rw [← all, hall, card_cons, hmanaged.kept.limits.futureLimit]
      exact hcount
    · rw [← all, hall, bytes_cons, Nat.add_comm, hmanaged.kept.limits.futureSizeBytesLimit]
      exact hsize

theorem importTransaction_run (h : q.Indexed) (ik : IfDropped) (isFuture : Bool)
    (hfits : t.hasZeroSignature = true ∨ q.Fits t) :
    ∃ result q', importTransaction t ik isFuture q = .ok result q' ∧
      Imported q t ik isFuture result q' := by
  have hsame : Kept q q := .of_le h h le_rfl (.refl q)
  rw [importTransaction]
  split
  next =>
    exact ⟨_, q, rfl, hsame, nofun, fun hordered _ => hordered, fun _ _ => ⟨q.dropped, rfl⟩, nofun⟩
  next hzero =>
    obtain ⟨q₁, checked, q₂, htake, hcheck, hchecked⟩ := checked_run h t ik
    have hkept₂ : Kept q q₂ :=
      .of_le h hchecked.indexed hchecked.shrinks.futures hchecked.shrinks.limits
    rw [bind_apply, htake]
    dsimp only
    rw [bind_apply, hcheck]
    by_cases hsuccess : checked = .success
    · subst hsuccess
      dsimp only
      obtain ⟨ret, q₃, hmanage, hmanaged⟩ := manageImport_run hchecked.indexed
        ((hfits.resolve_left hzero).of_shrinks hchecked.shrinks) (hchecked.new rfl)
      have hordered : q.Ordered →
          t.hasZeroSignature = true ∨ q.Occupied t ∨ q.Admissible t → q₃.Ordered := by
        intro hstart hadmissible
        refine hmanaged.ordered (hstart.congr hchecked.current)
          ((hadmissible.resolve_left hzero).imp ?_ ?_)
        · intro hoccupied
          rw [Occupied, hchecked.current.current]
          exact hoccupied
        · exact fun hfree => ⟨hfree.insertable.congr hchecked.current, hfree.notLast⟩
      have hunchanged : q.Replaces t ik → ret ≠ .success → ∃ dropped, q₃ = { q with dropped } := by
        intro hreplaces hne
        obtain ⟨rfl, hreason⟩ := hmanaged.refused hne
        exact hchecked.refused hreplaces (.inr hreason)
      rw [bind_apply, hmanage]
      dsimp only
      cases isFuture with
      | false =>
        exact ⟨ret, q₃, rfl, hkept₂.trans hmanaged.kept, hmanaged.small, hordered, hunchanged,
          fun hroom hret => (hmanaged.taken false (hroom.of_shrinks hchecked.shrinks) hret).2⟩
      | true =>
        obtain ⟨q₄, hset, hkept₄, hsmall, hordered₄, hsame₄, hknown⟩ :=
          hmanaged.setFuture hchecked.indexed (hchecked.new rfl)
        rw [if_pos rfl, bind_apply, hset]
        exact ⟨ret, q₄, rfl, (hkept₂.trans hmanaged.kept).trans hkept₄,
          fun hret => hsmall (hmanaged.small hret),
          fun hstart hadmissible => hordered₄ (hordered hstart hadmissible),
          fun hreplaces hne => hsame₄ hne ▸ hunchanged hreplaces hne,
          fun hroom => hknown (hroom.of_shrinks hchecked.shrinks)⟩
    · refine ⟨checked, q₂, ?_, hkept₂, fun heq => absurd heq hsuccess,
        fun hstart _ => hstart.congr hchecked.current,
        fun hreplaces hne => hchecked.refused hreplaces (.inl hne),
        fun _ heq => absurd heq hsuccess⟩
      cases checked <;> first | rfl | exact absurd rfl hsuccess

end Import

/-! ## The other operations -/

section Other

variable {q : TransactionQueue}

theorem drop_run (h : q.Indexed) (hash : H256) : ∃ q', drop hash q = .ok () q' ∧ Kept q q' ∧
    (q.Ordered → q.Droppable hash → q'.Ordered) := by
  rw [drop, get_bind]
  split
  next =>
    obtain ⟨found, q', hrun, hindexed, hshrinks, hordered⟩ :=
      remove_any (h.withDropped (noteDropped hash q.dropped)) hash
    refine ⟨q', ?_, .of_le h hindexed hshrinks.futures { hshrinks.limits with },
      fun hstart hdroppable =>
        hordered (hstart.congr ⟨rfl, rfl⟩) (hdroppable.congr ⟨rfl, rfl⟩)⟩
    rw [modify_bind]
    rw [bind_apply, hrun]
    rfl
  next => exact ⟨q, rfl, .of_le h h le_rfl (.refl q), fun hstart _ => hstart⟩

/-- `makeCurrent_WITH_LOCK` on its own. -/
theorem makeCurrent_kept (h : q.Indexed) (t : PooledTransaction) :
    ∃ q', makeCurrent t q = .ok () q' ∧ Kept q q' ∧ MadeCurrent t q q' := by
  obtain ⟨q', hrun, hmade⟩ := makeCurrent_run h.toBalanced t
  refine ⟨q', hrun, .of_le h ⟨hmade.balanced, fun hash => ?_⟩ hmade.futures hmade.limits, hmade⟩
  rw [hmade.known, hmade.all]
  exact h.known hash

/-- `dropGood` for a transaction does not change the order of the others. Those
that follow it from the future, if any, must find their place, and then it may not
be the first one of its sender. -/
def Finishable (q : TransactionQueue) (t : PooledTransaction) : Prop :=
  if t.isInvalid = false ∧ (q.future.find t.origin (t.nonce + 1)).isSome = true then
    q.Insertable t.origin (t.nonce + 1) ∧ (∀ u ∈ q.futures, u.hash ≠ t.hash) ∧
      ∀ node ∈ q.current, node.transaction.hash = t.hash → ∃ lower ∈ q.current,
        lower.transaction.origin = node.transaction.origin ∧
          lower.transaction.nonce.toNat < node.transaction.nonce.toNat
  else q.Droppable t.hash

/-- What is removed in the end was there before the others came. -/
theorem MadeCurrent.droppable {q' : TransactionQueue} {t : PooledTransaction}
    (hmade : MadeCurrent t q q') (hnew : ∀ u ∈ q.futures, u.hash ≠ t.hash)
    (hlower : ∀ node ∈ q.current, node.transaction.hash = t.hash → ∃ lower ∈ q.current,
      lower.transaction.origin = node.transaction.origin ∧
        lower.transaction.nonce.toNat < node.transaction.nonce.toNat) :
    q'.Droppable t.hash := by
  intro node hnode hhash
  have hmem : node.transaction ∈ pending q.current + q.futures := by
    rw [← hmade.all, Multiset.mem_add]
    exact .inl (mem_pending.mpr ⟨node, hnode, rfl⟩)
  obtain hold | hfuture := Multiset.mem_add.mp hmem
  · obtain ⟨old, hin, heq⟩ := mem_pending.mp hold
    obtain ⟨lower, hlow, horigin, hnonce⟩ := hlower old hin (heq ▸ hhash)
    rw [heq] at horigin hnonce
    exact .inl ⟨lower, hmade.kept lower hlow, horigin, hnonce⟩
  · exact absurd hhash (hnew _ hfuture)

theorem dropGood_run (h : q.Indexed) (t : PooledTransaction) :
    ∃ q', dropGood t q = .ok () q' ∧ Kept q q' ∧ (q.Ordered → q.Finishable t → q'.Ordered) := by
  have hremove : ∀ q₁ : TransactionQueue, q₁.Indexed → ∃ q',
      (do if t.hash ∈ (← get).known then do let _ ← remove t.hash : M Unit) q₁ = .ok () q' ∧
        Kept q₁ q' ∧ (q₁.Ordered → q₁.Droppable t.hash → q'.Ordered) := by
    intro q₁ h₁
    rw [get_bind]
    split
    next =>
      obtain ⟨found, q', hrun, hindexed, hshrinks, hordered⟩ := remove_any h₁ t.hash
      refine ⟨q', ?_, .of_le h₁ hindexed hshrinks.futures hshrinks.limits, hordered⟩
      rw [bind_apply, hrun]
      rfl
    next => exact ⟨q₁, rfl, .of_le h₁ h₁ le_rfl (.refl q₁), fun hstart _ => hstart⟩
  rw [dropGood]
  split
  next hvalid =>
    rw [Bool.not_eq_true'] at hvalid
    obtain ⟨q₁, hmake, hkept₁, hmade⟩ := makeCurrent_kept h t
    obtain ⟨q', hrun, hkept, hordered⟩ := hremove q₁ hkept₁.indexed
    refine ⟨q', ?_, hkept₁.trans hkept, fun hstart hfinish => ?_⟩
    · rw [bind_apply, hmake]
      exact hrun
    · cases hmoves : (q.future.find t.origin (t.nonce + 1)).isSome with
      | true =>
        rw [Finishable, if_pos ⟨hvalid, hmoves⟩] at hfinish
        obtain ⟨hinsertable, hnew, hlower⟩ := hfinish
        exact hordered (hmade.ordered hstart fun _ => hinsertable) (hmade.droppable hnew hlower)
      | false =>
        obtain rfl := hmade.nothing hmoves
        rw [Finishable, if_neg fun hboth => Bool.false_ne_true (hmoves.symm.trans hboth.2)]
          at hfinish
        exact hordered hstart hfinish
  next hinvalid =>
    obtain ⟨q', hrun, hkept, hordered⟩ := hremove q h
    refine ⟨q', hrun, hkept, fun hstart hfinish => hordered hstart ?_⟩
    rwa [Finishable, if_neg fun hboth => hinvalid (by rw [hboth.1]; rfl)] at hfinish

/-- A queue with nothing in it. -/
theorem indexed_cleared (q : TransactionQueue) : Indexed { q with
    known := ∅
    current := []
    currentSizeBytes := 0
    dropped := []
    currentByAddressAndNonce := ∅
    currentByHash := ∅
    future := ∅
    futureSize := 0
    futureSizeBytes := 0 } where
  linked := {
    numbered := ⟨List.nodup_nil, nofun⟩
    byHash := by simp [ByHash]
    byNonce := by simp [ByNonce, NestedMap.find]
    noEmpty := nofun
    counted := rfl }
  stored := ⟨nofun, nofun⟩
  distinct := ⟨nodup_zero, nodup_zero, nofun, nofun, Nat.two_pow_pos 32⟩
  futureCounted := ⟨rfl, rfl⟩
  known := by simp [pending, futures, NestedMap.values, AList.values]

theorem ordered_of_nil (hcurrent : q.current = []) : q.Ordered := by
  refine ⟨?_, hcurrent ▸ List.Pairwise.nil, hcurrent ▸ nofun⟩
  rw [Sorted, hcurrent]
  exact .nil

theorem clear_run (h : q.Indexed) : ∃ q', clear q = .ok () q' ∧ Kept q q' ∧ q'.Ordered :=
  ⟨_, rfl, .of_le h (indexed_cleared q) (Multiset.zero_le _) ⟨rfl, rfl, rfl, rfl⟩,
    ordered_of_nil rfl⟩

end Other

end TransactionQueue

/-! ## Runs -/

/-- An operation that keeps the indexes in agreement. -/
def QueueOp.Allowed (q : TransactionQueue) : QueueOp → Prop
  | .importTransaction t _ _ => t.hasZeroSignature = true ∨ t.isInvalid = false ∧
      t.sender.isSome = true ∧ TransactionQueue.bytes q.all + t.size < 2 ^ 32
  | _ => True

/-- An operation that keeps `current` in order. -/
def QueueOp.KeepsOrder (q : TransactionQueue) : QueueOp → Prop
  | .importTransaction t _ _ => t.hasZeroSignature = true ∨ q.Occupied t ∨ q.Admissible t
  | .drop h => q.Droppable h
  | .dropGood t => q.Finishable t
  | .topTransactions limit maxCategory setCategory =>
    setCategory < 0 ∨ q.FollowsOn limit ∧ q.CategoryFits maxCategory setCategory
  | _ => True

/-- What an operation promises about the limits. -/
structure WithinLimits (op : QueueOp) (result : Option ImportResult) (q' : TransactionQueue) :
    Prop where
  future : ∀ h, op = .setFuture h → q'.futureSize ≤ q'.futureLimit ∧
    q'.futureSizeBytes ≤ q'.futureSizeBytesLimit
  current : result = some .success → q'.current.length ≤ q'.limit.toNat ∧
    q'.currentSizeBytes ≤ q'.currentSizeBytesLimit

namespace TransactionQueue

/-- Operations, one after the other. -/
def runAll : List QueueOp → M Unit
  | [] => pure ()
  | op :: ops => do
    let _ ← op.run
    runAll ops

/-- Every operation of the run meets a condition when its turn comes. -/
def EachStep (Meets : TransactionQueue → QueueOp → Prop) (q : TransactionQueue) :
    List QueueOp → Prop
  | [] => True
  | op :: ops => Meets q op ∧ ∀ result q', op.run q = .ok result q' → EachStep Meets q' ops

/-- Every operation of the run returns, within the limits, and the indexes agree
before and after it. -/
def AgreesThroughout (q : TransactionQueue) : List QueueOp → Prop
  | [] => IndexesAgree q
  | op :: ops => IndexesAgree q ∧ ∃ result q', op.run q = .ok result q' ∧
      WithinLimits op result q' ∧ AgreesThroughout q' ops

def initial (limit futureLimit currentLimitBytes futureLimitBytes : UInt32) (engine : Nat → Nat) :
    TransactionQueue :=
  { limit, futureLimit, currentSizeBytesLimit := currentLimitBytes
    futureSizeBytesLimit := futureLimitBytes, engine }

variable {q : TransactionQueue}

variable {op : QueueOp}

theorem run_kept (h : q.Indexed) (hallowed : op.Allowed q) :
    ∃ result q', op.run q = .ok result q' ∧ Kept q q' ∧
      (result = some .success → q'.currentTooLarge = false) ∧
      (q.Ordered → op.KeepsOrder q → q'.Ordered) := by
  cases op with
  | importTransaction t ik isFuture =>
    obtain ⟨result, q', hrun, hkept, hsmall, hordered, -, -⟩ := importTransaction_run h ik isFuture
      (hallowed.imp_right fun ⟨hvalid, hsender, hbytes⟩ => ⟨hsender, hvalid, hbytes⟩)
    refine ⟨some result, q', ?_, hkept, fun heq => hsmall (Option.some.inj heq), hordered⟩
    rw [QueueOp.run, map_apply, hrun]
  | setFuture hash =>
    obtain ⟨q', hrun, hkept, hmade⟩ := setFuture_kept h hash
    refine ⟨none, q', ?_, hkept, nofun, fun hstart _ => hmade.ordered hstart⟩
    rw [QueueOp.run, bind_apply, hrun]
    rfl
  | drop hash =>
    obtain ⟨q', hrun, hkept, hordered⟩ := drop_run h hash
    refine ⟨none, q', ?_, hkept, nofun, hordered⟩
    rw [QueueOp.run, bind_apply, hrun]
    rfl
  | dropGood t =>
    obtain ⟨q', hrun, hkept, hordered⟩ := dropGood_run h t
    refine ⟨none, q', ?_, hkept, nofun, hordered⟩
    rw [QueueOp.run, bind_apply, hrun]
    rfl
  | topTransactions limit maxCategory setCategory =>
    obtain ⟨top, q', hrun, hlisted⟩ := topTransactions_run h limit maxCategory setCategory
    refine ⟨none, q', ?_, .of_le h hlisted.indexed hlisted.shrinks.futures
      hlisted.shrinks.limits, nofun, hlisted.ordered⟩
    rw [QueueOp.run, bind_apply, hrun]
    rfl
  | clear =>
    obtain ⟨q', hrun, hkept, hordered⟩ := clear_run h
    refine ⟨none, q', ?_, hkept, nofun, fun _ _ => hordered⟩
    rw [QueueOp.run, bind_apply, hrun]
    rfl

theorem withinLimits {result : Option ImportResult} (hfuture : q.futureTooLarge = false)
    (hcurrent : result = some .success → q.currentTooLarge = false) : WithinLimits op result q where
  future := fun _ _ => futureTooLarge_eq_false.mp hfuture
  current := fun heq => currentTooLarge_eq_false.mp (hcurrent heq)

/-- From a queue in which everything agrees. -/
theorem agreesThroughout (h : q.Indexed) (hsmall : q.futureTooLarge = false)
    {ops : List QueueOp} (hallowed : q.EachStep QueueOp.Allowed ops) : q.AgreesThroughout ops := by
  induction ops generalizing q with
  | nil => exact h.agree
  | cons op ops ih =>
    obtain ⟨result, q', hrun, hkept, hcurrent, -⟩ := run_kept h hallowed.1
    have hsmall' := hkept.future hsmall
    exact ⟨h.agree, result, q', hrun, withinLimits hsmall' hcurrent,
      ih hkept.indexed hsmall' (hallowed.2 result q' hrun)⟩

/-- From the queue as it is constructed, with any limits. -/
theorem initial_agreesThroughout
    (limit futureLimit currentLimitBytes futureLimitBytes : UInt32) (engine : Nat → Nat)
    (ops : List QueueOp)
    (hallowed : (initial limit futureLimit currentLimitBytes futureLimitBytes engine).EachStep
      QueueOp.Allowed ops) :
    (initial limit futureLimit currentLimitBytes futureLimitBytes engine).AgreesThroughout ops :=
  agreesThroughout
    (indexed_cleared (initial limit futureLimit currentLimitBytes futureLimitBytes engine))
    (futureTooLarge_eq_false.mpr ⟨Nat.zero_le _, Nat.zero_le _⟩) hallowed

def sampleTransaction (hash : H256) (sender : Option Address) (nonce gasPrice : U256) :
    PooledTransaction :=
  { hash, sender, nonce, gasPrice, size := 100, isNull := false, size_pos := fun _ _ => by decide
    null_sender := nofun }

abbrev sampleQueue : TransactionQueue := initial 10 10 1000 1000 fun _ => 0

theorem initial_agreesThroughout_sample :
    sampleQueue.AgreesThroughout
      [.importTransaction (sampleTransaction 1 (some 5) 3 7) .ignore true, .setFuture 1,
        .dropGood (sampleTransaction 2 (some 5) 2 7), .topTransactions 10 0 1, .clear] :=
  initial_agreesThroughout 10 10 1000 1000 (fun _ => 0) _
    ⟨.inr ⟨rfl, rfl, by decide⟩, fun _ _ _ => ⟨trivial, fun _ _ _ => ⟨trivial, fun _ _ _ =>
      ⟨trivial, fun _ _ _ => ⟨trivial, fun _ _ _ => trivial⟩⟩⟩⟩⟩

theorem runAll_cons {q' : TransactionQueue} {result : Option ImportResult}
    (hrun : op.run q = .ok result q') (ops : List QueueOp) :
    runAll (op :: ops) q = runAll ops q' := by
  rw [runAll, bind_apply, hrun]

/-- The state a run ends in. -/
theorem AgreesThroughout.final {ops : List QueueOp} (h : q.AgreesThroughout ops) :
    ∃ q', runAll ops q = .ok () q' ∧ IndexesAgree q' := by
  induction ops generalizing q with
  | nil => exact ⟨q, rfl, h⟩
  | cons op ops ih =>
    obtain ⟨-, result, q₁, hrun, -, hrest⟩ := h
    rw [runAll_cons hrun]
    exact ih hrest

/-- A transaction whose signature does not recover is compared with one that waits:
it is reported as malformed, and its sender's map keeps an iterator to nothing. -/
theorem malformed_leaves_entry :
    ¬ sampleQueue.AgreesThroughout
      [.importTransaction (sampleTransaction 1 (some 5) 3 7) .ignore false,
        .importTransaction (sampleTransaction 2 none 0 7) .ignore false] := by
  intro h
  obtain ⟨q', hrun, hagree⟩ := h.final
  have hfind : (runAll
      [.importTransaction (sampleTransaction 1 (some 5) 3 7) .ignore false,
        .importTransaction (sampleTransaction 2 none 0 7) .ignore false]
      sampleQueue).state.currentByAddressAndNonce.find 0 0 =
        some none := by
    decide +kernel
  rw [hrun] at hfind
  obtain ⟨node, -, hit, -⟩ := (hagree.byNonce 0 0 none).mp hfind
  cases hit

end TransactionQueue

end Skaled

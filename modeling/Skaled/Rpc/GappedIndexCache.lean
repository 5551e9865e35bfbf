import Skaled.Basic
import Skaled.Lib.OrderedMap

/-! # The cache of gapped transaction indexes

`GappedTransactionIndexCache` numbers the transactions of a block without those that use no
gas or are located in another block. What was found for a block is kept, unless the block is
asked for as the latest or the pending one. The client may answer differently at every
query, and its lookups may throw.
-/

namespace Skaled

/-- What the client knows of a transaction in a block: the cumulative gas in the receipt
under its hash, whether its location is this place in the block, and the cumulative gas at
this place, which the code does not ask for. -/
structure TransactionRow where
  receiptGas : U256
  located : Bool
  ownGas : U256
  deriving DecidableEq, Repr

/-- The rows of a block; `none` stands for a lookup that throws. -/
abbrev BlockRows := Option (List (Option TransactionRow))

def latestBlock : Nat := 2 ^ 32 - 2
def pendingBlock : Nat := 2 ^ 32 - 1

/-- The entries of `real2gappedCache`, with `none` for `UNDEFINED`, and of
`gapped2realCache`. -/
structure GapEntry where
  real2gapped : List (Option Nat)
  gapped2real : List Nat

inductive GapQuery where
  | realBlockTransactionCount
  | gappedBlockTransactionCount
  | realIndexFromGapped (gappedIndex : Nat)
  | gappedIndexFromReal (realIndex : Nat)
  | transactionPresent (realIndex : Nat)

inductive GapAnswer where
  | number (n : Nat)
  | present (b : Bool)
  | thrown
  deriving DecidableEq, Repr

namespace GappedIndexCache

/-- The loop of `ensureCached`, with the rest of `real2gapped`. After an exception it stays
undefined. -/
def fill (gasBefore : U256) (realIndex : Nat) (gapped2real : List Nat) :
    List (Option TransactionRow) → GapEntry × Bool
  | [] => (⟨[], gapped2real⟩, true)
  | none :: rows => (⟨none :: rows.map fun _ => none, gapped2real⟩, false)
  | some row :: rows =>
    if row.receiptGas = gasBefore ∨ row.located = false then
      let r := fill row.receiptGas (realIndex + 1) gapped2real rows
      (⟨none :: r.1.real2gapped, r.1.gapped2real⟩, r.2)
    else
      let r := fill row.receiptGas (realIndex + 1) (gapped2real ++ [realIndex]) rows
      (⟨some gapped2real.length :: r.1.real2gapped, r.1.gapped2real⟩, r.2)

/-- The entries that stay when a block is added. -/
def makeRoom (cacheSize : Nat) (cache : List (Nat × GapEntry)) : List (Nat × GapEntry) :=
  if cacheSize ≤ cache.length then cache.tail else cache

/-- `ensureCached`. Both maps have the same keys, and are kept as one. -/
def ensureCached (cacheSize : Nat) (rows : BlockRows) (bn : Nat) (cache : List (Nat × GapEntry)) :
    List (Nat × GapEntry) × Bool :=
  if bn ≠ pendingBlock ∧ bn ≠ latestBlock ∧ (cache.lookup bn).isSome then (cache, true)
  else if cacheSize < cache.length then (cache, false)
  else match rows with
    | none => (makeRoom cacheSize cache, false)
    | some rows =>
      let filled := fill 0 0 [] rows
      (OrderedMap.insert bn filled.1 (makeRoom cacheSize cache), filled.2)

/-- What is read of an entry; `at` throws behind the end. -/
def answer (entry : GapEntry) : GapQuery → GapAnswer
  | .realBlockTransactionCount => .number entry.real2gapped.length
  | .gappedBlockTransactionCount => .number entry.gapped2real.length
  | .realIndexFromGapped i => (entry.gapped2real[i]?.map .number).getD .thrown
  | .gappedIndexFromReal i => (entry.real2gapped[i]?.join.map .number).getD .thrown
  | .transactionPresent i => (entry.real2gapped[i]?.map (.present ·.isSome)).getD .thrown

/-- A query for a block, with the rows the client has for it. -/
structure Asked where
  bn : Nat
  rows : BlockRows
  query : GapQuery

def step (cacheSize : Nat) (cache : List (Nat × GapEntry)) (q : Asked) :
    GapAnswer × List (Nat × GapEntry) :=
  let r := ensureCached cacheSize q.rows q.bn cache
  (if r.2 then answer ((r.1.lookup q.bn).getD ⟨[], []⟩) q.query else .thrown, r.1)

def run (cacheSize : Nat) :
    List (Nat × GapEntry) → List Asked → List GapAnswer × List (Nat × GapEntry)
  | cache, [] => ([], cache)
  | cache, q :: asked =>
    let r := step cacheSize cache q
    let rest := run cacheSize r.2 asked
    (r.1 :: rest.1, rest.2)

/-! ## What should be answered -/

/-- Which transactions use gas and are located in the block. -/
def counted (gasBefore : U256) : List TransactionRow → List Bool
  | [] => []
  | row :: rows => (decide (row.ownGas ≠ gasBefore) && row.located) :: counted row.ownGas rows

/-- The transactions in front of this one that are counted. -/
def rank (flags : List Bool) (i : Nat) : Nat := (flags.take i).count true

/-- Real and gapped indexes belong together by the rank. -/
def Right (flags : List Bool) : GapQuery → GapAnswer → Prop
  | .realBlockTransactionCount, a => a = .number flags.length
  | .gappedBlockTransactionCount, a => a = .number (flags.count true)
  | .realIndexFromGapped g, .number i => flags[i]? = some true ∧ rank flags i = g
  | .realIndexFromGapped g, .thrown => flags.count true ≤ g
  | .gappedIndexFromReal i, .number g => flags[i]? = some true ∧ rank flags i = g
  | .gappedIndexFromReal i, .thrown => flags[i]? ≠ some true
  | .transactionPresent i, .present b => flags[i]? = some b
  | .transactionPresent i, .thrown => flags.length ≤ i
  | _, _ => False

/-- The answer computed from the chain as it is; a lookup that throws is passed on. -/
def Exact (q : Asked) (a : GapAnswer) : Prop :=
  match q.rows.bind (·.mapM id) with
  | some rows => Right (counted 0 rows) q.query a
  | none => a = .thrown

def ByNumber (bn : Nat) : Prop := bn ≠ pendingBlock ∧ bn ≠ latestBlock

/-- Receipts belong to the block; a block that is asked for by its number is there, and
nothing changes about it. -/
structure Settled (asked : List Asked) (q : Asked) : Prop where
  receipts : ∀ rows, q.rows.bind (·.mapM id) = some rows →
    ∀ row ∈ rows, row.receiptGas = row.ownGas
  found : ByNumber q.bn → q.rows.bind (·.mapM id) ≠ none
  same : ByNumber q.bn → ∀ other ∈ asked, other.bn = q.bn → other.rows = q.rows

/-! ## Entries -/

/-- Gapped indexes from this one on. -/
def ranks : Nat → List Bool → List (Option Nat)
  | _, [] => []
  | n, true :: flags => some n :: ranks (n + 1) flags
  | n, false :: flags => none :: ranks n flags

/-- Real indexes of the transactions that are counted. -/
def indices : Nat → List Bool → List Nat
  | _, [] => []
  | i, true :: flags => i :: indices (i + 1) flags
  | i, false :: flags => indices (i + 1) flags

theorem fill_eq {rows : List TransactionRow} (h : ∀ row ∈ rows, row.receiptGas = row.ownGas)
    (gasBefore : U256) (i : Nat) (gapped : List Nat) :
    fill gasBefore i gapped (rows.map some) =
      (⟨ranks gapped.length (counted gasBefore rows),
        gapped ++ indices i (counted gasBefore rows)⟩, true) := by
  induction rows generalizing gasBefore i gapped with
  | nil => simp [fill, counted, ranks, indices]
  | cons row rows ih =>
    obtain ⟨hrow, hrows⟩ := List.forall_mem_cons.mp h
    rw [List.map_cons, fill, counted, hrow]
    by_cases hgas : row.ownGas = gasBefore <;> cases hlocated : row.located <;>
      simp [hgas, ih hrows, ranks, indices]

variable {rows : List (Option TransactionRow)} {asked : List Asked} {cache : List (Nat × GapEntry)}
  {cacheSize : Nat}

/-- A lookup that throws ends the loop. -/
theorem fill_of_none (h : rows.mapM id = none) (gasBefore : U256) (i : Nat) (gapped : List Nat) :
    (fill gasBefore i gapped rows).2 = false := by
  induction rows generalizing gasBefore i gapped with
  | nil => cases h
  | cons row rows ih =>
    cases row with
    | none => rfl
    | some row =>
      have hrows : rows.mapM id = none := by
        cases hrows : rows.mapM id with
        | none => rfl
        | some found => simp [hrows] at h
      rw [fill]
      split
      next => exact ih hrows _ _ _
      next => exact ih hrows _ _ _

theorem rank_cons_succ (b : Bool) (flags : List Bool) (k : Nat) :
    rank (b :: flags) (k + 1) = rank flags k + if b = true then 1 else 0 := by
  cases b <;> simp [rank]

theorem getElem?_ranks (flags : List Bool) (n k : Nat) :
    (ranks n flags)[k]? =
      flags[k]?.map fun b => if b = true then some (n + rank flags k) else none := by
  induction flags generalizing n k with
  | nil => rfl
  | cons b flags ih =>
    cases k with
    | zero => cases b <;> simp [ranks, rank]
    | succ k =>
      cases b with
      | true =>
        simp only [ranks, List.getElem?_cons_succ, ih, rank_cons_succ, if_true,
          Nat.add_assoc, Nat.add_comm 1]
      | false => simpa [ranks, rank] using ih n k

theorem getElem?_indices {flags : List Bool} {i g v : Nat} :
    (indices i flags)[g]? = some v ↔
      ∃ k, v = i + k ∧ flags[k]? = some true ∧ rank flags k = g := by
  induction flags generalizing i g with
  | nil => simp [indices]
  | cons b flags ih =>
    rw [← Nat.or_exists_add_one]
    cases b with
    | false => simp [indices, ih, rank_cons_succ, Nat.add_assoc, Nat.add_comm 1]
    | true =>
      cases g with
      | zero => simp [indices, rank, eq_comm]
      | succ g =>
        have hzero : rank (true :: flags) 0 ≠ g + 1 := nofun
        simp [indices, ih, rank_cons_succ, hzero, Nat.add_assoc, Nat.add_comm 1]

theorem length_indices (flags : List Bool) (i : Nat) :
    (indices i flags).length = flags.count true := by
  induction flags generalizing i with
  | nil => rfl
  | cons b flags ih => cases b <;> simp [indices, ih]

theorem answer_right (flags : List Bool) (q : GapQuery) :
    Right flags q (answer ⟨ranks 0 flags, indices 0 flags⟩ q) := by
  have hranks := getElem?_ranks flags 0
  have hlength : (ranks 0 flags).length = flags.length := by
    have hnone : ∀ k, (ranks 0 flags).length ≤ k ↔ flags.length ≤ k := by
      intro k
      rw [← List.getElem?_eq_none_iff, ← List.getElem?_eq_none_iff, hranks]
      simp
    exact le_antisymm ((hnone _).mpr le_rfl) ((hnone _).mp le_rfl)
  cases q with
  | realBlockTransactionCount => exact congrArg _ hlength
  | gappedBlockTransactionCount => exact congrArg _ (length_indices flags 0)
  | realIndexFromGapped g =>
    cases hget : (indices 0 flags)[g]? with
    | none =>
      simp only [answer, hget, Option.map_none, Option.getD_none, Right]
      rwa [List.getElem?_eq_none_iff, length_indices] at hget
    | some v =>
      obtain ⟨k, rfl, hk⟩ := getElem?_indices.mp hget
      simpa only [answer, hget, Option.map_some, Option.getD_some, Right, Nat.zero_add] using hk
  | gappedIndexFromReal i =>
    simp only [answer, hranks]
    cases hget : flags[i]? with
    | none => simp [Right, hget]
    | some b => cases b <;> simp [Right, hget]
  | transactionPresent i =>
    simp only [answer, hranks]
    cases hget : flags[i]? with
    | none => simpa [Right] using hget
    | some b => cases b <;> simp [Right, hget]

/-! ## Runs -/

def MadeFrom (rows : BlockRows) (entry : GapEntry) : Prop :=
  ∃ found, rows.bind (·.mapM id) = some found ∧
    entry = ⟨ranks 0 (counted 0 found), indices 0 (counted 0 found)⟩

def Kept (asked : List Asked) (cache : List (Nat × GapEntry)) : Prop :=
  ∀ kept ∈ cache, ByNumber kept.1 → ∃ q ∈ asked, q.bn = kept.1 ∧ MadeFrom q.rows kept.2

theorem mapM_id_eq_some {found : List TransactionRow}
    (h : rows.mapM id = some found) : rows = found.map some := by
  induction rows generalizing found with
  | nil =>
    cases h
    rfl
  | cons row rows ih =>
    simp only [List.mapM_cons, Option.bind_eq_bind, Option.bind_eq_some_iff, id_eq] at h
    obtain ⟨row, rfl, rest, hrest, hfound⟩ := h
    cases hfound
    rw [ih hrest, List.map_cons]

/-- What a query finds in the cache was made from the rows of today. -/
structure Served (asked : List Asked) (q : Asked) (r : List (Nat × GapEntry) × Bool) : Prop where
  kept : Kept asked r.1
  found : r.2 = true → ∃ entry, r.1.lookup q.bn = some entry ∧ MadeFrom q.rows entry
  thrown : r.2 = false → q.rows.bind (·.mapM id) = none

theorem served_of_fill {q : Asked} (hq : q ∈ asked) (h : Settled asked q) (hkept : Kept asked cache)
    (hrows : q.rows = some rows) :
    Served asked q (OrderedMap.insert q.bn (fill 0 0 [] rows).1 cache, (fill 0 0 [] rows).2) := by
  have hbind : q.rows.bind (·.mapM id) = rows.mapM id := by rw [hrows, Option.bind_some]
  cases hfound : rows.mapM id with
  | none =>
    have hfalse := fill_of_none hfound 0 0 []
    refine ⟨fun kept hmem hnumber => ?_, fun htrue => ?_, fun _ => hbind.trans hfound⟩
    · obtain rfl | hold := OrderedMap.mem_insert hmem
      · exact absurd (hbind.trans hfound) (h.found hnumber)
      · exact hkept kept hold hnumber
    · rw [hfalse] at htrue
      cases htrue
  | some found =>
    have hfill := fill_eq (h.receipts found (hbind.trans hfound)) 0 0 []
    have hmade : MadeFrom q.rows (fill 0 0 [] rows).1 := by
      rw [mapM_id_eq_some hfound, hfill]
      exact ⟨found, hbind.trans hfound, rfl⟩
    refine ⟨fun kept hmem hnumber => ?_, fun _ => ⟨_, ?_, hmade⟩, fun hfalse => ?_⟩
    · obtain rfl | hold := OrderedMap.mem_insert hmem
      · exact ⟨q, hq, rfl, hmade⟩
      · exact hkept kept hold hnumber
    · rw [OrderedMap.lookup_insert, if_pos rfl]
    · rw [mapM_id_eq_some hfound, hfill] at hfalse
      cases hfalse

theorem ensureCached_served {q : Asked} (hq : q ∈ asked) (h : Settled asked q)
    (hsize : cache.length ≤ cacheSize) (hkept : Kept asked cache) :
    Served asked q (ensureCached cacheSize q.rows q.bn cache) := by
  unfold ensureCached
  split
  next hcached =>
    obtain ⟨hpending, hlatest, hsome⟩ := hcached
    obtain ⟨entry, hentry⟩ := Option.isSome_iff_exists.mp hsome
    refine ⟨hkept, fun _ => ⟨entry, hentry, ?_⟩, nofun⟩
    obtain ⟨before, after, hcache, _⟩ := List.lookup_eq_some_iff.mp hentry
    obtain ⟨other, hother, hbn, hmade⟩ :=
      hkept (q.bn, entry) (hcache ▸ List.mem_append_cons_self) ⟨hpending, hlatest⟩
    rwa [h.same ⟨hpending, hlatest⟩ other hother hbn] at hmade
  next =>
    rw [if_neg (Nat.not_lt.mpr hsize)]
    have hpart : Kept asked (makeRoom cacheSize cache) := by
      unfold makeRoom
      split
      next => exact fun kept hmem => hkept kept (List.mem_of_mem_tail hmem)
      next => exact hkept
    split
    next hrows => exact ⟨hpart, nofun, fun _ => by rw [hrows]; rfl⟩
    next rows hrows => exact served_of_fill hq h hpart hrows

theorem length_insert_le (bn : Nat) (entry : GapEntry) (cache : List (Nat × GapEntry)) :
    (OrderedMap.insert bn entry cache).length ≤ cache.length + 1 := by
  fun_induction OrderedMap.insert bn entry cache <;> simp_all

theorem length_ensureCached (hpos : 0 < cacheSize)
    (hsize : cache.length ≤ cacheSize) (rows : BlockRows)
    (bn : Nat) : (ensureCached cacheSize rows bn cache).1.length ≤ cacheSize := by
  have hpart : (makeRoom cacheSize cache).length + 1 ≤ cacheSize := by
    unfold makeRoom
    split
    next hfull =>
      rw [List.length_tail]
      omega
    next hfree => omega
  unfold ensureCached
  split
  next => exact hsize
  next =>
    rw [if_neg (Nat.not_lt.mpr hsize)]
    split
    next => exact (Nat.le_succ _).trans hpart
    next => exact (length_insert_le _ _ _).trans hpart

theorem length_run (hpos : 0 < cacheSize) (asked : List Asked) (hsize : cache.length ≤ cacheSize) :
    (run cacheSize cache asked).2.length ≤ cacheSize := by
  induction asked generalizing cache with
  | nil => exact hsize
  | cons q asked ih => exact ih (length_ensureCached hpos hsize q.rows q.bn)

theorem run_exact (hpos : 0 < cacheSize) (hsettled : ∀ q ∈ asked, Settled asked q)
    {part : List Asked} (hpart : ∀ q ∈ part, q ∈ asked) (hsize : cache.length ≤ cacheSize)
    (hkept : Kept asked cache) : List.Forall₂ Exact part (run cacheSize cache part).1 := by
  induction part generalizing cache with
  | nil => exact .nil
  | cons q part ih =>
    obtain ⟨hq, hrest⟩ := List.forall_mem_cons.mp hpart
    have hserved := ensureCached_served hq (hsettled q hq) hsize hkept
    refine .cons ?_ (ih hrest (length_ensureCached hpos hsize q.rows q.bn) hserved.kept)
    unfold step Exact
    dsimp only
    cases hok : (ensureCached cacheSize q.rows q.bn cache).2 with
    | true =>
      obtain ⟨entry, hentry, found, hfound, rfl⟩ := hserved.found hok
      rw [hentry, hfound]
      exact answer_right _ _
    | false =>
      rw [hserved.thrown hok]
      rfl

/-- Of two transactions that are counted, the earlier one has the lower gapped index. -/
theorem rank_lt_rank {flags : List Bool} {i j : Nat} (hi : flags[i]? = some true) (hlt : i < j) :
    rank flags i < rank flags j := by
  induction flags generalizing i j with
  | nil => cases hi
  | cons b flags ih =>
    obtain ⟨j, rfl⟩ := Nat.exists_eq_add_one_of_ne_zero (Nat.ne_zero_of_lt hlt)
    cases i with
    | zero =>
      obtain rfl : b = true := Option.some.inj hi
      simp [rank]
    | succ i =>
      have := ih hi (Nat.lt_of_succ_lt_succ hlt)
      simp only [rank_cons_succ]
      omega

/-- The cache never holds too many blocks. The answers are those computed from the chain as
it is, as long as blocks are asked for by their numbers only when they are there, no lookup
for them throws, and receipts belong to the block; and indexes keep their order. -/
theorem cache_transparent (hpos : 0 < cacheSize) (asked : List Asked) :
    (run cacheSize [] asked).2.length ≤ cacheSize ∧
      ((∀ q ∈ asked, Settled asked q) → List.Forall₂ Exact asked (run cacheSize [] asked).1) ∧
      ∀ q ∈ asked, ∀ rows, q.rows.bind (·.mapM id) = some rows →
        ∀ i j, (counted 0 rows)[i]? = some true → i < j →
          rank (counted 0 rows) i < rank (counted 0 rows) j :=
  ⟨length_run hpos asked (Nat.zero_le _),
    fun h => run_exact hpos h (fun _ hq => hq) (Nat.zero_le _) nofun,
    fun _ _ _ _ _ _ hi hlt => rank_lt_rank hi hlt⟩

/-- A transaction that uses gas, in a block. -/
def usualRow : TransactionRow := ⟨21000, true, 21000⟩

/-- Queries for two blocks that do not change, one with a transaction that uses no gas, and
for the latest block, which grows in between. The last two are answered from what was kept. -/
def repeatedQueries : List Asked :=
  let five : BlockRows := some [some usualRow, some usualRow, some ⟨42000, true, 42000⟩]
  let six : BlockRows := some [some usualRow]
  [⟨5, five, .gappedIndexFromReal 2⟩, ⟨latestBlock, five, .gappedBlockTransactionCount⟩,
    ⟨6, six, .realBlockTransactionCount⟩, ⟨latestBlock, six, .gappedBlockTransactionCount⟩,
    ⟨5, five, .realIndexFromGapped 1⟩, ⟨6, six, .transactionPresent 0⟩]

theorem cache_transparent_repeated :
    List.Forall₂ Exact repeatedQueries (run 4 [] repeatedQueries).1 ∧
      (run 4 [] repeatedQueries).1 =
        [.number 1, .number 2, .number 1, .number 1, .number 2, .present true] ∧
      ∀ q ∈ repeatedQueries.drop 4,
        ((run 4 [] (repeatedQueries.take 4)).2.lookup q.bn).isSome := by
  have hreceipts : ∀ q ∈ repeatedQueries, ∀ rows ∈ q.rows.bind (·.mapM id),
      ∀ row ∈ rows, row.receiptGas = row.ownGas := by decide
  have hfound : ∀ q ∈ repeatedQueries, q.rows.bind (·.mapM id) ≠ none := by decide
  have hsame : ∀ q ∈ repeatedQueries, ¬ (q.bn ≠ pendingBlock ∧ q.bn ≠ latestBlock) ∨
      ∀ other ∈ repeatedQueries, other.bn = q.bn → other.rows = q.rows := by decide
  refine ⟨(cache_transparent (by decide) _).2.1 fun q hq => ⟨hreceipts q hq, fun _ => hfound q hq,
    fun hnumber => (hsame q hq).resolve_left (not_not.mpr hnumber)⟩, by decide, by decide⟩

/-- Block 5 is asked for before it is there, and then again. -/
theorem early_query_kept :
    (run 16 [] [⟨5, some [], .gappedBlockTransactionCount⟩,
        ⟨5, some [some usualRow], .gappedBlockTransactionCount⟩]).1 = [.number 0, .number 0] ∧
      ¬ Exact ⟨5, some [some usualRow], .gappedBlockTransactionCount⟩ (.number 0) := by
  refine ⟨by decide, fun h => ?_⟩
  cases (show GapAnswer.number 0 = .number 1 from h)

end GappedIndexCache

end Skaled

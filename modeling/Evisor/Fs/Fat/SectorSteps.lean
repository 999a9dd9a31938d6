import Evisor.Fs.Fat.Buffers

/-!
# From sector to sector

`CalcNextSector` of `fs/fat/fat32.cc`, over and over again, from the first sector of a chain of
clusters on. That a cluster is through it sees from the number of the sector, a multiple of
`BPB_SecPerClus` less one; but clusters are counted from `data_first_sector`, which need not be such
a multiple. If it is one, the sectors come in the order of the chain, as far as the table can be
read; if not, the first cluster is left before its end: `Evisor.Fat32Fs.sector_steps_iff`.
-/

namespace Evisor

namespace Fat32Fs

/-! ### The steps -/

/-- The sector at a place in a cluster. -/
def Volume.sectorOf (fat : Volume) (cluster k : ℕ) : ℕ :=
  fat.data_first_sector + (cluster - 2) * fat.BPB_SecPerClus + k

/-- **Where `CalcNextSector` has got to** after so many calls, from the first sector of a cluster
on: each of them is for the node of the cluster that the sector at hand is in. -/
def sectorSteps (L : Layout) (d : Mmc) (fat : Volume) (cluster : ℕ) (s : Clusters) :
    ℕ → Except Fault (ℕ × Clusters)
  | 0 => .ok (calcSector fat cluster 0, s)
  | n + 1 => (sectorSteps L d fat cluster s n).bind fun r =>
    calcNextSector L d fat r.2 r.1 (some (n / fat.BPB_SecPerClus))

/-- **The sectors of a chain come in order**, cluster by cluster, as far as there are clusters, and
whatever a list has of them already, and the node for each is that of its cluster; and the card is
not looked at, nor a page taken, within a cluster. A call does not come back only when there is no
page left for a node. -/
structure StepsInOrder (d : Mmc) (fat : Volume) (root : ℕ) : Prop where
  sectors : ∀ (L : Layout) (s : Clusters) (n : ℕ), Follows d fat root s.val →
    fat.GoesOn d root (n / fat.BPB_SecPerClus + 1) →
    Lib.Gives (sectorSteps L d fat root s n)
      (fun r => r.1 = fat.sectorOf (fat.chain d root (n / fat.BPB_SecPerClus))
          (n % fat.BPB_SecPerClus) ∧
        r.2.val[n / fat.BPB_SecPerClus]? = some (fat.chain d root (n / fat.BPB_SecPerClus)))
      Fault.OutOfMemory
  reads : ∀ (L : Layout) (s : Clusters) (n : ℕ), Follows d fat root s.val →
    fat.GoesOn d root (n / fat.BPB_SecPerClus + 1) →
    ∀ r, sectorSteps L d fat root s n = .ok r → (n + 1) % fat.BPB_SecPerClus ≠ 0 →
      ∀ answers state, (Buffers.calcNextSector L d fat r.2 r.1 (some (n / fat.BPB_SecPerClus))
        answers state).2 = state

/-- **Where they do**: the first cluster starts at a multiple of their size, the numbers of the
sectors are words, and the entries of the clusters that others follow can be told. -/
structure Volume.InStep (d : Mmc) (fat : Volume) (root : ℕ) : Prop where
  aligned : fat.BPB_SecPerClus ∣ fat.data_first_sector
  words : ∀ i, fat.GoesOn d root (i + 1) →
    fat.sectorOf (fat.chain d root i) (fat.BPB_SecPerClus - 1) < 2 ^ 32
  entries : ∀ i, fat.GoesOn d root (i + 2) → fat.EntryRight d (fat.chain d root i)

variable {L : Layout} {d : Mmc} {fat : Volume} {root n : ℕ} {s : Clusters}

theorem sectorOf_mod (h : fat.BPB_SecPerClus ∣ fat.data_first_sector) (cluster k : ℕ) :
    fat.sectorOf cluster k % fat.BPB_SecPerClus = k % fat.BPB_SecPerClus := by
  rw [Volume.sectorOf, Nat.add_mod, Nat.add_mul_mod_self_right, Nat.mod_eq_zero_of_dvd h,
    Nat.zero_add, Nat.mod_mod]

/-- The first sector of a cluster is as far into the volume as the first of all, in sizes of a
cluster. -/
theorem calcSector_mod (h : fat.BPB_SecPerClus ∣ 2 ^ 32) (cluster : ℕ) :
    calcSector fat cluster 0 % fat.BPB_SecPerClus =
      fat.data_first_sector % fat.BPB_SecPerClus := by
  rw [calcSector, Nat.zero_mod, Nat.zero_div, Nat.add_zero, Nat.mod_mod, Nat.mod_mod_of_dvd _ h,
    Nat.add_mul_mod_self_right]

/-! ### In order -/

/-- **The steps are in order** if the first cluster starts at a multiple of their size. -/
theorem sectorSteps_gives (hstep : fat.InStep d root) (h : Follows d fat root s.val)
    (hgo : fat.GoesOn d root (n / fat.BPB_SecPerClus + 1)) :
    Lib.Gives (sectorSteps L d fat root s n)
      (fun r => r.1 = fat.sectorOf (fat.chain d root (n / fat.BPB_SecPerClus))
        (n % fat.BPB_SecPerClus) ∧ Follows d fat root r.2.val ∧
          n / fat.BPB_SecPerClus < r.2.val.length) Fault.OutOfMemory := by
  have hpos := fat.secPerClus_pos
  have hword : ∀ {i k}, fat.GoesOn d root (i + 1) → k < fat.BPB_SecPerClus →
      fat.sectorOf (fat.chain d root i) k < 2 ^ 32 := by
    intro i k hi hk
    refine lt_of_le_of_lt ?_ (hstep.words i hi)
    rw [Volume.sectorOf, Volume.sectorOf]
    omega
  induction n with
  | zero =>
    rw [Nat.zero_div] at hgo ⊢
    rw [Nat.zero_mod]
    exact .of_ok ⟨calcSector_zero (hgo 0 Nat.one_pos) (hword hgo hpos), h, h.pos⟩
  | succ n ih =>
    have hgo' : fat.GoesOn d root (n / fat.BPB_SecPerClus + 1) :=
      hgo.mono (Nat.succ_le_succ (Nat.div_le_div_right (Nat.le_succ n)))
    rw [sectorSteps]
    refine (ih hgo').bind ?_
    rintro ⟨sector, t⟩ ⟨rfl, ht, hnode⟩
    have hmod := sectorOf_mod hstep.aligned (fat.chain d root (n / fat.BPB_SecPerClus))
      (n % fat.BPB_SecPerClus)
    rw [Nat.mod_mod] at hmod
    have hsplit := Nat.div_add_mod n fat.BPB_SecPerClus
    have hsplit' := Nat.div_add_mod (n + 1) fat.BPB_SecPerClus
    rw [calcNextSector, hmod]
    by_cases hlast : (n + 1) % fat.BPB_SecPerClus = 0
    · -- the cluster is through
      have hdiv := Nat.succ_div_of_mod_eq_zero hlast
      have hend : n % fat.BPB_SecPerClus = fat.BPB_SecPerClus - 1 := by
        rw [hdiv, Nat.mul_add_one] at hsplit'
        omega
      rw [hdiv] at hgo ⊢
      rw [hlast, if_neg (not_not_intro hend)]
      refine (calcNextCluster_gives ht hnode fun h => h.step (hstep.entries _ hgo)).bind ?_
      rintro ⟨cluster, u⟩ ⟨hcluster, hnext, hu⟩
      obtain rfl := hcluster hgo'
      exact .of_ok ⟨calcSector_zero (hgo _ (Nat.lt_succ_self _)) (hword hgo hpos), hu.follows,
        hnext⟩
    · have hdiv := Nat.succ_div_of_mod_ne_zero hlast
      have hnext : (n + 1) % fat.BPB_SecPerClus = n % fat.BPB_SecPerClus + 1 := by
        rw [hdiv] at hsplit'
        omega
      have hin : n % fat.BPB_SecPerClus ≠ fat.BPB_SecPerClus - 1 := by
        have := Nat.mod_lt (n + 1) hpos
        omega
      have hlt := hword hgo' (Nat.mod_lt (n + 1) hpos)
      rw [hdiv, if_pos hin]
      rw [hnext] at hlt ⊢
      exact .of_ok ⟨Nat.mod_eq_of_lt hlt, ht, hnode⟩

/-! ### Out of order -/

/-- A list that has this much of a chain already. -/
def known (d : Mmc) (fat : Volume) (root n : ℕ) : Clusters :=
  ⟨(List.range n).map (fat.chain d root), fun _ => false⟩

variable (d fat root) in
theorem known_length (n : ℕ) : (known d fat root n).val.length = n := by
  rw [known, List.length_map, List.length_range]

theorem known_val {i : ℕ} (hi : i < n) :
    (known d fat root n).val[i]? = some (fat.chain d root i) := by
  rw [known, List.getElem?_map, List.getElem?_range hi, Option.map_some]

theorem known_follows (hn : 0 < n) : Follows d fat root (known d fat root n).val := by
  refine ⟨by rwa [known_length], fun i hi _ => known_val ?_⟩
  rwa [known_length] at hi

theorem nextSector_lt (sector cluster : ℕ) : fat.nextSector sector cluster < 2 ^ 32 := by
  rw [Volume.nextSector]
  split_ifs
  · exact Nat.mod_lt _ (by decide)
  · exact Nat.mod_lt _ (by decide)

/-- A step for which there are both nodes. -/
theorem calcNextSector_known {p : ℕ} (sector : ℕ) (hp : p + 1 < n) :
    calcNextSector L d fat (known d fat root n) sector (some p) =
      .ok (fat.nextSector sector (fat.chain d root (p + 1)), known d fat root n) := by
  rw [calcNextSector, Volume.nextSector, calcNextCluster, known_val (Nat.lt_of_succ_lt hp),
    known_val hp]
  split_ifs
  · rfl
  · rfl

variable (L d fat root) in
/-- **No page is needed** for a chain that is in the list already. -/
theorem sectorSteps_known {k : ℕ} (hk : n / fat.BPB_SecPerClus + 1 < k) :
    ∃ sector < 2 ^ 32, sectorSteps L d fat root (known d fat root k) n =
        .ok (sector, known d fat root k) ∧
      sectorSteps L d fat root (known d fat root k) (n + 1) = .ok
        (fat.nextSector sector (fat.chain d root (n / fat.BPB_SecPerClus + 1)),
          known d fat root k) := by
  have hnext : ∀ {sector}, sectorSteps L d fat root (known d fat root k) n =
        .ok (sector, known d fat root k) →
      sectorSteps L d fat root (known d fat root k) (n + 1) = .ok
        (fat.nextSector sector (fat.chain d root (n / fat.BPB_SecPerClus + 1)),
          known d fat root k) := by
    intro sector hsector
    rw [sectorSteps, hsector]
    exact calcNextSector_known sector hk
  induction n with
  | zero => exact ⟨_, Nat.mod_lt _ (by decide), rfl, hnext rfl⟩
  | succ n ih =>
    have hle : n / fat.BPB_SecPerClus ≤ (n + 1) / fat.BPB_SecPerClus :=
      Nat.div_le_div_right (Nat.le_succ n)
    have hk' : n / fat.BPB_SecPerClus + 1 < k := by omega
    obtain ⟨sector, -, -, hstep⟩ := ih hk' fun {sector} hsector => by
      rw [sectorSteps, hsector]
      exact calcNextSector_known sector hk'
    exact ⟨_, nextSector_lt _ _, hstep, hnext hstep⟩

variable (L d fat root) in
/-- Where clusters start at multiples of their size, none is needed before a cluster is through. -/
theorem sectorSteps_aligned (haligned : fat.BPB_SecPerClus ∣ fat.data_first_sector)
    (hsize : fat.BPB_SecPerClus ∣ 2 ^ 32) {k : ℕ} (hk : n / fat.BPB_SecPerClus < k) :
    ∃ sector, sectorSteps L d fat root (known d fat root k) n =
        .ok (sector, known d fat root k) ∧
      sector % fat.BPB_SecPerClus = n % fat.BPB_SecPerClus := by
  have hpos := fat.secPerClus_pos
  have hstart : ∀ cluster, calcSector fat cluster 0 % fat.BPB_SecPerClus = 0 := fun cluster =>
    (calcSector_mod hsize cluster).trans (Nat.mod_eq_zero_of_dvd haligned)
  induction n with
  | zero => exact ⟨_, rfl, (hstart root).trans (Nat.zero_mod _).symm⟩
  | succ n ih =>
    obtain ⟨sector, hok, hmod⟩ :=
      ih ((Nat.div_le_div_right (Nat.le_succ n)).trans_lt hk)
    have hsum : (n + 1) % fat.BPB_SecPerClus = (sector + 1) % fat.BPB_SecPerClus := by
      rw [← Nat.mod_add_mod, ← hmod, Nat.mod_add_mod]
    rw [sectorSteps, hok, Except.bind]
    by_cases hend : sector % fat.BPB_SecPerClus = fat.BPB_SecPerClus - 1
    · have hlast : (n + 1) % fat.BPB_SecPerClus = 0 := by
        rw [hsum, ← Nat.mod_add_mod, hend, Nat.sub_add_cancel hpos, Nat.mod_self]
      rw [Nat.succ_div_of_mod_eq_zero hlast] at hk
      refine ⟨_, calcNextSector_known sector hk, ?_⟩
      rw [Volume.nextSector, if_neg (not_not_intro hend), hstart, hlast]
    · refine ⟨(sector + 1) % 2 ^ 32, by rw [calcNextSector, if_pos hend], ?_⟩
      rw [Nat.mod_mod_of_dvd _ hsize, hsum]

/-- **Steps that are in order** get to each sector of the chain. -/
theorem StepsInOrder.sector (h : StepsInOrder d fat root)
    (hgo : fat.GoesOn d root (n / fat.BPB_SecPerClus + 1)) {k : ℕ}
    (hk : n / fat.BPB_SecPerClus + 1 < k) : sectorSteps .qemu d fat root (known d fat root k) n =
      .ok (fat.sectorOf (fat.chain d root (n / fat.BPB_SecPerClus)) (n % fat.BPB_SecPerClus),
        known d fat root k) := by
  obtain ⟨sector, -, hok, -⟩ := sectorSteps_known .qemu d fat root hk
  obtain ⟨hsector, -⟩ :=
    (h.sectors .qemu _ n (known_follows (Nat.zero_lt_of_lt hk)) hgo).ok _ hok
  rw [hok, ← hsector]

/-- **The first cluster is left before its end** if it does not start at a multiple of its size. -/
theorem StepsInOrder.aligned (h : StepsInOrder d fat root) (hroot : isValidCluster root)
    (hsize : fat.BPB_SecPerClus ∣ 2 ^ 32) : fat.BPB_SecPerClus ∣ fat.data_first_sector := by
  have hpos := fat.secPerClus_pos
  rw [Nat.dvd_iff_mod_eq_zero]
  by_contra hne
  have hlt := Nat.mod_lt fat.data_first_sector hpos
  set r := fat.data_first_sector % fat.BPB_SecPerClus with hr
  -- the place in it at which its number looks like that of a last sector
  obtain ⟨k, hk⟩ : ∃ k, k = fat.BPB_SecPerClus - 1 - r := ⟨_, rfl⟩
  have hdiv : ∀ n < fat.BPB_SecPerClus, n / fat.BPB_SecPerClus = 0 := fun n => Nat.div_eq_of_lt
  have hgo : fat.GoesOn d root 1 := by
    intro i hi
    obtain rfl := Nat.lt_one_iff.mp hi
    exact hroot
  have hat : ∀ n < fat.BPB_SecPerClus, sectorSteps .qemu d fat root (known d fat root 2) n =
      .ok (fat.sectorOf root n, known d fat root 2) := by
    intro n hn
    have hsector := h.sector (n := n) (k := 2) (by rw [hdiv n hn]; exact hgo)
      (by rw [hdiv n hn]; decide)
    rwa [hdiv n hn, Nat.mod_eq_of_lt hn] at hsector
  have hmod : ∀ j, fat.sectorOf root j % fat.BPB_SecPerClus = (r + j) % fat.BPB_SecPerClus := by
    intro j
    rw [Volume.sectorOf, Nat.add_right_comm, Nat.add_mul_mod_self_right, hr, Nat.mod_add_mod]
  obtain ⟨sector, -, hhere, hnext⟩ := sectorSteps_known .qemu d fat root
    (n := k) (k := 2) (by rw [hdiv k (by omega)]; decide)
  rw [hat k (by omega)] at hhere
  obtain rfl := (Prod.mk.inj (Except.ok.inj hhere)).1
  rw [hat (k + 1) (by omega)] at hnext
  have hgoes := (Prod.mk.inj (Except.ok.inj hnext)).1
  have hend : (r + k) % fat.BPB_SecPerClus = fat.BPB_SecPerClus - 1 := by
    have hsum : r + k = fat.BPB_SecPerClus - 1 := by omega
    rw [hsum]
    exact Nat.mod_eq_of_lt (by omega)
  rw [Volume.nextSector, if_neg (not_not_intro ((hmod k).trans hend))] at hgoes
  have hwrap : (r + (k + 1)) % fat.BPB_SecPerClus = 0 := by
    have hsum : r + (k + 1) = fat.BPB_SecPerClus := by omega
    rw [hsum, Nat.mod_self]
  refine hne ?_
  calc r = calcSector fat (fat.chain d root (k / fat.BPB_SecPerClus + 1)) 0 %
        fat.BPB_SecPerClus := (calcSector_mod hsize _).symm
    _ = fat.sectorOf root (k + 1) % fat.BPB_SecPerClus := by rw [hgoes]
    _ = 0 := (hmod (k + 1)).trans hwrap

variable (fat) in
/-- The last sector of the cluster at place `i`. -/
theorem exists_last (i : ℕ) : ∃ n, n / fat.BPB_SecPerClus = i ∧
    n % fat.BPB_SecPerClus = fat.BPB_SecPerClus - 1 ∧
    (n + 1) / fat.BPB_SecPerClus = i + 1 := by
  have hpos := fat.secPerClus_pos
  refine ⟨fat.BPB_SecPerClus * i + (fat.BPB_SecPerClus - 1), ?_, ?_, ?_⟩
  · rw [Nat.mul_add_div hpos, Nat.div_eq_of_lt (by omega), Nat.add_zero]
  · rw [Nat.mul_add_mod, Nat.mod_eq_of_lt (by omega)]
  · rw [Nat.add_assoc, Nat.sub_add_cancel hpos, ← Nat.mul_add_one, Nat.mul_div_cancel_left _ hpos]

/-- The numbers that are got to are words. -/
theorem StepsInOrder.words (h : StepsInOrder d fat root) {i : ℕ} (hi : fat.GoesOn d root (i + 1)) :
    fat.sectorOf (fat.chain d root i) (fat.BPB_SecPerClus - 1) < 2 ^ 32 := by
  obtain ⟨n, hdiv, hmod, -⟩ := exists_last fat i
  have hok := h.sector (n := n) (k := i + 2) (hdiv.symm ▸ hi) (by omega)
  obtain ⟨sector, hlt, hsame, -⟩ := sectorSteps_known .qemu d fat root (n := n) (k := i + 2)
    (by omega)
  rw [hok, hdiv, hmod] at hsame
  rwa [(Prod.mk.inj (Except.ok.inj hsame)).1]

/-- **The entry is read** when the last sector of the cluster that a list ends with is passed. -/
theorem StepsInOrder.entries (h : StepsInOrder d fat root)
    (haligned : fat.BPB_SecPerClus ∣ fat.data_first_sector)
    (hsize : fat.BPB_SecPerClus ∣ 2 ^ 32) {i : ℕ} (hi : fat.GoesOn d root (i + 2)) :
    fat.EntryRight d (fat.chain d root i) := by
  obtain ⟨n, hdiv, hmod, hdiv'⟩ := exists_last fat i
  obtain ⟨sector, hok, hsector⟩ := sectorSteps_aligned .qemu d fat root
    haligned hsize (n := n) (k := i + 1) (by omega)
  obtain ⟨t, hpush⟩ : ∃ t, (known d fat root (i + 1)).push .qemu
      (fat.entry d (fat.chain d root i)) = .ok t := ⟨_, rfl⟩
  have hstep : sectorSteps .qemu d fat root (known d fat root (i + 1)) (n + 1) =
      .ok (calcSector fat (fat.entry d (fat.chain d root i)) 0, t) := by
    rw [sectorSteps, hok, Except.bind, calcNextSector, if_neg (not_not_intro (hsector.trans hmod)),
      calcNextCluster, hdiv, known_val (Nat.lt_succ_self i),
      List.getElem?_eq_none (known_length d fat root (i + 1)).le]
    dsimp only
    rw [fatEntry_eq, Lib.ok_bind, hpush]
    rfl
  obtain ⟨-, hnode⟩ := (h.sectors .qemu _ (n + 1) (known_follows (Nat.succ_pos i))
    (hdiv'.symm ▸ hi)).ok _ hstep
  have hlen := known_length d fat root (i + 1)
  have hnew := List.getElem?_concat_length (l := (known d fat root (i + 1)).val)
    (a := fat.entry d (fat.chain d root i))
  rw [hlen] at hnew
  rw [hdiv', (push_gives _ _).ok t hpush, hnew] at hnode
  rw [entryRight_iff (hi i (by omega)), Option.some.inj hnode, chain_succ]

/-! ### In order exactly where the clusters start at a multiple of their size -/

/-- **`CalcNextSector` follows the chain** exactly on volumes whose first cluster starts at a
multiple of the size of a cluster, as far as the numbers of the sectors are words, and the entries
of the table can be told. -/
theorem sector_steps_iff (d : Mmc) (fat : Volume) (hsize : ∃ k, fat.BPB_SecPerClus = 2 ^ k)
    {root : ℕ} (hroot : isValidCluster root) :
    StepsInOrder d fat root ↔ fat.InStep d root := by
  -- the number of a sector wraps at a multiple of the sectors in a cluster
  have hword : fat.BPB_SecPerClus ∣ 2 ^ 32 := by
    obtain ⟨k, hk⟩ := hsize
    have hlt : 2 ^ k < 2 ^ 8 := hk ▸ fat.secPerClus_lt
    rw [hk]
    exact pow_dvd_pow 2 ((Nat.pow_lt_pow_iff_right (by decide)).mp hlt |>.le.trans (by decide))
  constructor
  · intro h
    have haligned := h.aligned hroot hword
    exact ⟨haligned, fun i hi => h.words hi, fun i hi => h.entries haligned hword hi⟩
  · intro h
    constructor
    · intro L s n hs hgo
      refine (sectorSteps_gives h hs hgo).mono fun r hr => ⟨hr.1, ?_⟩
      exact hr.2.1.val _ hr.2.2 (hgo.mono (Nat.le_succ _))
    · intro L s n hs hgo r hr hwithin answers state
      obtain ⟨hsector, -, -⟩ := (sectorSteps_gives h hs hgo).ok r hr
      have hin : r.1 % fat.BPB_SecPerClus ≠ fat.BPB_SecPerClus - 1 := by
        rw [hsector, sectorOf_mod h.aligned, Nat.mod_mod]
        intro hlast
        refine hwithin ?_
        rw [← Nat.mod_add_mod, hlast, Nat.sub_add_cancel fat.secPerClus_pos, Nat.mod_self]
      rw [Buffers.calcNextSector, if_pos hin]
      rfl

/-- A file of two clusters, on a volume whose clusters have eight sectors: the ninth step goes to
the first sector of the second. -/
theorem sector_steps_iff_two_clusters : StepsInOrder .twoClusters .eightSectors 3 ∧
    Volume.eightSectors.chain .twoClusters 3 1 = 4 := by
  have hend : ¬isValidCluster (Volume.eightSectors.chain .twoClusters 3 2) := by decide +kernel
  refine ⟨(sector_steps_iff .twoClusters .eightSectors ⟨3, rfl⟩ (by decide)).mpr
    ⟨by decide, ?_, ?_⟩, by decide +kernel⟩
  · rintro (_ | _ | i) hi
    · decide
    · decide +kernel
    · exact absurd (hi 2 (by omega)) hend
  · rintro (_ | i) hi
    · exact .inl (by decide : 2048 + 32 + 3 * 4 / 512 < 2 ^ 23)
    · exact absurd (hi 2 (by omega)) hend

/-- A card with a volume whose clusters have 64 sectors, of which only 32 are left where the first
cluster starts. -/
def Mmc.oddStart : Mmc := .ofList (format 64 65 ++ endOfChain 2)

/-- Its volume. -/
def Volume.oddStart : Volume := { Volume.eightSectors with
  BPB_SecPerClus := 64
  secPerClus_lt := by decide
  secPerClus_pos := by decide }

/-- **The root directory is left in the middle of its first cluster.** -/
theorem sector_steps_leave_cluster : ¬∀ (d : Mmc) (fat : Volume), Accepted d fat →
    (∃ k, fat.BPB_SecPerClus = 2 ^ k) → ∀ root, isValidCluster root →
      StepsInOrder d fat root := by
  intro h
  have haccepted : Accepted .oddStart .oddStart :=
    ⟨.qemu, fun _ => false, _, rfl, _, rfl, [2], .head _⟩
  have hsteps := h .oddStart .oddStart haccepted ⟨6, rfl⟩ 2 (by decide)
  exact absurd (hsteps.aligned (by decide) (by decide)) (by decide)

end Fat32Fs

end Evisor

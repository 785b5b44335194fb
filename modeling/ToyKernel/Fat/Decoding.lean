import ToyKernel.Stage1.Load

namespace ToyKernel.Fat

open Library ByteMemory

section Packed

-- A FAT12 table: two values in three bytes, the low bits first
def packed : List (Fin 4096) → List UInt8
  | [] => []
  | [a] => [UInt8.ofNat (a % 256), UInt8.ofNat (a / 256)]
  | a :: b :: values =>
      UInt8.ofNat (a % 256) :: UInt8.ofNat (a / 256 + 16 * (b % 16)) :: UInt8.ofNat (b / 16) ::
        packed values

-- The table stands at the beginning of the FAT.
def Holds (fat : Nat → UInt8) (values : List (Fin 4096)) : Prop :=
  ∀ k b, (packed values)[k]? = some b → fat k = b

variable {fat : Nat → UInt8} {values : List (Fin 4096)} {a b : Fin 4096}

theorem Holds.tail (h : Holds fat (a :: b :: values)) : Holds (fun k => fat (k + 3)) values :=
  fun k byte hk => h (k + 3) byte hk

-- Induction on the packing: the two values of the first three bytes, or one further on
theorem Holds.entry12 (h : Holds fat values) {i : Nat} {value : Fin 4096} (hi : values[i]? = some value) :
    entry12 (fun k => (fat k).toNat) i = value := by
  induction values using packed.induct generalizing fat i with
  | case1 => cases hi
  | case2 a =>
      cases i with
      | succ i => cases hi
      | zero =>
          obtain rfl : a = value := Option.some.inj hi
          rw [entry12_eq fun k => (fat k).toNat_lt, if_pos rfl, Nat.mul_zero, Nat.zero_div,
            h 0 _ rfl, h 1 _ rfl, UInt8.toNat_ofNat', UInt8.toNat_ofNat']
          omega
  | case3 a b values ih =>
      rcases i with _ | _ | i
      · obtain rfl : a = value := Option.some.inj hi
        rw [entry12_eq fun k => (fat k).toNat_lt, if_pos rfl, Nat.mul_zero, Nat.zero_div,
          h 0 _ rfl, h 1 _ rfl, UInt8.toNat_ofNat', UInt8.toNat_ofNat']
        omega
      · obtain rfl : b = value := Option.some.inj hi
        rw [entry12_eq fun k => (fat k).toNat_lt, if_neg (by decide), h (3 * (0 + 1) / 2) _ rfl,
          h (3 * (0 + 1) / 2 + 1) _ rfl, UInt8.toNat_ofNat', UInt8.toNat_ofNat']
        omega
      · rw [entry12_add_two]
        exact ih h.tail hi

end Packed

section Decoders

theorem Volume.nextCluster_eq (v : Volume) {cluster : Nat} (h : cluster < 4096) :
    v.nextCluster cluster = entry12 (fun k => (v.fat k).toNat) cluster := by
  have hindex : u32 (cluster * 3) / 2 = 3 * cluster / 2 := by
    rw [u32_of_lt (by omega), Nat.mul_comm]
  rw [entry12_eq fun k => (v.fat k).toNat_lt]
  unfold Volume.nextCluster
  rw [hindex]

-- What the first stage would take for the cluster after `cluster`
def decode (l : Stage1.Loader) (cluster : Nat) : Nat := { l with stage2Cluster := cluster }.nextCluster

-- Both stages have the same bytes for the FAT, as far as a cluster of twelve bits can reach.
def SameFat (v : Volume) (l : Stage1.Loader) : Prop :=
  ∀ k < 6144, l.memory (Stage1.BUFFER + k) = (v.fat k).toBitVec

variable {v : Volume} {l : Stage1.Loader}

theorem SameFat.decode (h : SameFat v l) {cluster : Nat} (hcluster : cluster < 4096) :
    decode l cluster = entry12 (fun k => (v.fat k).toNat) cluster := by
  have hnext : Fat.decode l cluster = Library.entry12 (fun k => (l.memory (Stage1.BUFFER + k)).toNat) cluster :=
    Stage1.nextCluster_eq hcluster
  rw [hnext]
  exact entry12_congr fun k _ _ => congrArg BitVec.toNat (h k (by omega))

-- The clusters that come after `cluster`, up to the mark that ends a chain
def follow (next : Nat → Nat) : (fuel cluster : Nat) → List Nat
  | 0, _ => []
  | fuel + 1, cluster =>
      if next cluster ≥ 0xFF8 then [] else next cluster :: follow next fuel (next cluster)

theorem follow_congr {next next' : Nat → Nat} (hlt : ∀ c < 4096, next c < 4096)
    (h : ∀ c < 4096, next c = next' c) (fuel : Nat) {cluster : Nat} (hcluster : cluster < 4096) :
    follow next fuel cluster = follow next' fuel cluster := by
  induction fuel generalizing cluster with
  | zero => rfl
  | succ fuel ih =>
      unfold follow
      rw [← h cluster hcluster, ih (hlt cluster hcluster)]

-- Either stage finds each value of the table where it was packed, and whatever bytes the FAT
-- has, both go along the same clusters.
theorem stages_decode_alike (v : Volume) (l : Stage1.Loader) (h : SameFat v l) :
    (∀ values, Holds v.fat values → ∀ cluster (value : Fin 4096), cluster < 4096 →
      values[cluster]? = some value → v.nextCluster cluster = value ∧ decode l cluster = value) ∧
    ∀ fuel cluster, cluster < 4096 →
      follow v.nextCluster fuel cluster = follow (decode l) fuel cluster := by
  constructor
  · intro values hholds cluster value hcluster hvalue
    rw [v.nextCluster_eq hcluster, h.decode hcluster]
    exact ⟨hholds.entry12 hvalue, hholds.entry12 hvalue⟩
  · intro fuel cluster hcluster
    refine follow_congr (fun c hc => ?_) (fun c hc => ?_) fuel hcluster
    · rw [v.nextCluster_eq hc]
      exact entry12_lt _ _
    · rw [v.nextCluster_eq hc, h.decode hc]

end Decoders

section Sample

-- A file in the clusters 2, 4 and 3
def sampleValues : List (Fin 4096) := [0xFF0, 0xFFF, 4, 0xFFF, 3]

def sampleVolume : Volume where
  disk := fun _ _ _ => { ok := true, data := fun _ _ => 0 }
  bootSector := BootSector.ofBytes []
  fat := fun k => (packed sampleValues).getD k 0
  dataSectionLba := 33

-- A loader that has the FAT of the volume in `buffer`
def loaderWith (v : Volume) : Stage1.Loader where
  memory := fun a => (v.fat (a - Stage1.BUFFER)).toBitVec
  calls := 0
  bx := Stage1.STAGE2_LOAD_OFFSET
  stage2Cluster := 2
  loads := []

theorem sameFat_loaderWith (v : Volume) : SameFat v (loaderWith v) := fun k _ =>
  congrArg (fun a => (v.fat a).toBitVec) (Nat.add_sub_cancel_left Stage1.BUFFER k)

theorem sample_holds : Holds sampleVolume.fat sampleValues := by
  intro k b hk
  change (packed sampleValues).getD k 0 = b
  rw [List.getD_eq_getElem?_getD, hk, Option.getD_some]

theorem stages_decode_alike_sample :
    (sampleVolume.nextCluster 4 = 3 ∧ decode (loaderWith sampleVolume) 4 = 3) ∧
      follow sampleVolume.nextCluster 5 2 = follow (decode (loaderWith sampleVolume)) 5 2 :=
  have h := stages_decode_alike sampleVolume (loaderWith sampleVolume) (sameFat_loaderWith sampleVolume)
  ⟨h.1 sampleValues sample_holds 4 3 (by decide) rfl, h.2 5 2 (by decide)⟩

example : follow sampleVolume.nextCluster 5 2 = [4, 3] := by decide

end Sample

end ToyKernel.Fat

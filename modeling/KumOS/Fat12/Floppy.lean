import KumOS.Fat12.Volume

/-!
# The volume on disk

`Floppy d s`: drive `d` carries a volume with the geometry `fat12_format` gives
it, it is mounted, and transfers succeed.  Its sectors fall into four regions:
the boot sector 0, the two copies of the table (1 to 18), the root directory
(19 to 32) and the clusters (33 on, cluster `c` in sector `31 + c`).  A table
that is not marked dirty is on the disk in both copies.
-/

namespace KumOS.Fat12

open Lib
open Ata (putRun putRun_out put_ne put_same)

/-- The boot sector of `fat12_format`, decoded. -/
def floppyBpb : Bpb where
  bytesPerSector := 512
  sectorsPerCluster := 1
  reservedSectors := 1
  fatCount := 2
  rootEntryCount := 224
  totalSectors16 := 2880
  sectorsPerFat := 9
  totalSectors32 := 0
  fsType := [70, 65, 84, 49, 50, 32, 32, 32]

/-- Both copies of the table on drive `d` are `fat`. -/
def FatOnDisk (d : Int) (a : Ata) (fat : Bytes) : Prop :=
  ∀ copy < 2, ∀ x < 4608, a.sector d (1 + 9 * copy + x / 512) (x % 512) = fat x

structure Floppy (d : Int) (s : State) : Prop where
  ok : ∀ d l, s.ata.ok d l = true
  drive : s.drive = d
  mounted : s.mounted = true
  bpb : s.bpb = floppyBpb
  fatStart : s.fatStart = 1
  rootStart : s.rootStart = 19
  dataStart : s.dataStart = 33
  rootSectors : s.rootSectors = 14
  totalClusters : s.totalClusters = 2847
  boot : Bpb.decode (s.ata.sector d 0) = floppyBpb
  synced : s.fatDirty = false → FatOnDisk d s.ata s.fat

/-- The volume as its files see it. -/
def view (s : State) : Vol where
  next := fatGet s.fat
  data := fun c => s.ata.sector s.drive (31 + c)
  dir := rootDir s

/-- Drive `d` carries a volume whose files are `files`. -/
def Stores (d : Int) (s : State) (files : Files) : Prop :=
  Floppy d s ∧ ∃ ch, Holds (view s) ch files

section

variable {d : Int} {s : State}

section

variable (hF : Floppy d s)
include hF

theorem Floppy.not_unmounted : ¬ (!s.mounted) = true := by simp [hF.mounted]

theorem Floppy.lba {c : Nat} (h2 : 2 ≤ c) (hc : c ≤ 2848) : clusterToLba s c = 31 + c := by
  unfold clusterToLba u32
  rw [hF.dataStart, hF.bpb]
  show (33 + (c + 2 ^ 32 - 2) * 1) % 2 ^ 32 = 31 + c
  omega

/-! ## What leaves the volume as it is -/

theorem Floppy.setSector (sec : Bytes) : Floppy d { s with sector := sec } :=
  { hF with }

theorem Floppy.fatSet (n val : Nat) : Floppy d (fatSet s n val) :=
  { hF with synced := nofun }

/-- Disks that differ only in clusters and directory still carry the volume. -/
theorem Floppy.setAta {a : Ata} (hok : a.ok = s.ata.ok)
    (hlow : ∀ l < 19, a.sector d l = s.ata.sector d l) : Floppy d { s with ata := a } := by
  refine { hF with ok := ?_, boot := ?_, synced := ?_ }
  · rw [hok]
    exact hF.ok
  · rw [hlow 0 (by omega)]
    exact hF.boot
  · intro hce copy hcp x hx
    rw [hlow _ (by omega)]
    exact hF.synced hce copy hcp x hx

theorem fatFlush_of_dirty {s' : State} (hdirty : s.fatDirty = true)
    (h : writeCopies s.drive (fun k => s.fat.drop (512 * k)) 1 9 2 0 s = (true, s')) :
    fatFlush s = (true, { s' with fatDirty := false }) := by
  have hcopies : writeCopies s.drive (fun k => s.fat.drop (512 * k)) s.fatStart
      s.bpb.sectorsPerFat s.bpb.fatCount 0 s = (true, s') := by
    rw [hF.bpb, hF.fatStart]
    exact h
  rw [fatFlush, hdirty, hcopies]
  rfl

/-- `fat_flush` brings both copies of the table to the disk and touches nothing else. -/
theorem fatFlush_spec : ∃ s', fatFlush s = (true, s') ∧ Floppy d s' ∧ view s' = view s ∧ s'.fatDirty = false ∧
      s'.fat = s.fat := by
  cases hdirty : s.fatDirty with
  | false => exact ⟨s, by rw [fatFlush, hdirty]; rfl, hF, rfl, hdirty, rfl⟩
  | true =>
    have hcopies := writeCopies_two hF.ok s.drive (fun k => s.fat.drop (512 * k)) 1 9 (by omega)
    refine ⟨_, fatFlush_of_dirty hF hdirty hcopies, ?_, ?_, rfl, rfl⟩
    · refine { hF with ok := hF.ok, boot := ?_, synced := fun _ copy hcp x hx => ?_ }
      · rw [hF.drive, putRun_out _ _ _ (by omega), putRun_out _ _ _ (by omega)]
        exact hF.boot
      · have hx512 : 512 * (x / 512) + x % 512 = x := Nat.div_add_mod x 512
        rw [hF.drive]
        by_cases h0 : copy = 0
        · subst h0
          rw [putRun_out _ _ _ (by omega), Ata.putRun_in _ _ _ (by omega)]
          show s.fat (512 * (1 + 9 * 0 + x / 512 - 1) + x % 512) = s.fat x
          rw [show 1 + 9 * 0 + x / 512 - 1 = x / 512 by omega, hx512]
        · obtain rfl : copy = 1 := by omega
          rw [Ata.putRun_in _ _ _ (by omega)]
          show s.fat (512 * (1 + 9 * 1 + x / 512 - (1 + 9)) + x % 512) = s.fat x
          rw [show 1 + 9 * 1 + x / 512 - (1 + 9) = x / 512 by omega, hx512]
    · have hhigh : ∀ l, 19 ≤ l → Ata.sector (putRun (putRun s.ata s.drive 1 9
          fun l => s.fat.drop (512 * (l - 1))) s.drive (1 + 9) 9
          fun l => s.fat.drop (512 * (l - (1 + 9)))) s.drive l = s.ata.sector s.drive l := by
        intro l hl
        rw [putRun_out _ _ _ (by omega), putRun_out _ _ _ (by omega)]
      unfold view rootDir
      congr 1
      · funext c
        exact hhigh (31 + c) (by omega)
      · funext j
        rw [hhigh _ (by rw [hF.rootStart]; omega)]

/-! ## Clusters and directory entries -/

theorem putCluster_spec {c : Nat} (hc : 2 ≤ c) (buf : Bytes) : Floppy d { s with ata := s.ata.put d (31 + c) buf } ∧
    (view { s with ata := s.ata.put d (31 + c) buf }).data c = buf ∧
    (∀ c', c' ≠ c → (view { s with ata := s.ata.put d (31 + c) buf }).data c' = (view s).data c') ∧
    ∀ j < 224, (view { s with ata := s.ata.put d (31 + c) buf }).dir j = (view s).dir j := by
  refine ⟨hF.setAta rfl fun l hl => put_ne _ _ _ (by omega), ?_, fun c' hc' => ?_,
    fun j hj => ?_⟩
  · show (s.ata.put d (31 + c) buf).sector s.drive (31 + c) = buf
    rw [hF.drive, put_same]
  · show (s.ata.put d (31 + c) buf).sector s.drive (31 + c') = s.ata.sector s.drive (31 + c')
    rw [hF.drive, put_ne _ _ _ (by omega)]
  · show sectorEntry ((s.ata.put d (31 + c) buf).sector s.drive (s.rootStart + j / 16)) (j % 16) =
      sectorEntry (s.ata.sector s.drive (s.rootStart + j / 16)) (j % 16)
    rw [hF.drive, hF.rootStart, put_ne _ _ _ (by omega)]

/-- A root sector is written so that one of its entries changes. -/
theorem putRoot_spec {j : Nat} (hj : j < 224) (buf : Bytes)
    (hbuf : ∀ i, i ≠ j % 16 → sectorEntry buf i = sectorEntry (s.ata.sector d (19 + j / 16)) i) :
    Floppy d { s with ata := s.ata.put d (19 + j / 16) buf } ∧
    (view { s with ata := s.ata.put d (19 + j / 16) buf }).dir j = sectorEntry buf (j % 16) ∧
    (∀ k < 224, k ≠ j →
      (view { s with ata := s.ata.put d (19 + j / 16) buf }).dir k = (view s).dir k) ∧
    ∀ c, 2 ≤ c → (view { s with ata := s.ata.put d (19 + j / 16) buf }).data c = (view s).data c := by
  refine ⟨hF.setAta rfl fun l hl => put_ne _ _ _ (by omega), ?_, fun k hk hkj => ?_,
    fun c hc => ?_⟩
  · show sectorEntry ((s.ata.put d (19 + j / 16) buf).sector s.drive (s.rootStart + j / 16))
      (j % 16) = _
    rw [hF.drive, hF.rootStart, put_same]
  · show sectorEntry ((s.ata.put d (19 + j / 16) buf).sector s.drive (s.rootStart + k / 16))
      (k % 16) = sectorEntry (s.ata.sector s.drive (s.rootStart + k / 16)) (k % 16)
    rw [hF.drive, hF.rootStart]
    by_cases hsec : k / 16 = j / 16
    · rw [hsec, put_same, hbuf _ (by omega)]
    · rw [put_ne _ _ _ (by omega)]
  · show (s.ata.put d (19 + j / 16) buf).sector s.drive (31 + c) = s.ata.sector s.drive (31 + c)
    rw [hF.drive, put_ne _ _ _ (by omega)]

end

/-- The loop over the root directory, on the volume's own entries. -/
theorem walkRoot_floppy {A R : Type} (more : A → Bool) (body : Dirent → A → A ⊕ R) (hF : Floppy d s) (a : A) :
    ∃ sec, walkRoot more body s.rootSectors 0 a s =
        (Walk.ofScan (scan more body (view s).dir 224 0 a), { s with sector := sec }) ∧
      ∀ j r, scan more body (view s).dir 224 0 a = .inr (j, r) → sec = s.ata.sector d (19 + j / 16) := by
  obtain ⟨sec, hrun, hsec⟩ := walkRoot_spec more body hF.ok 14 0 a (by rw [hF.rootStart]; omega)
  have hn : walkRoot more body s.rootSectors 0 a s = walkRoot more body 14 0 a s :=
    congrArg (fun n => walkRoot more body n 0 a s) hF.rootSectors
  refine ⟨sec, hn.trans hrun, fun j r hj => ?_⟩
  have := hsec j r hj
  rwa [hF.drive, hF.rootStart] at this

end

end KumOS.Fat12

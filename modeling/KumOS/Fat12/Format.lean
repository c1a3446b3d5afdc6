import KumOS.Fat12.Write

/-!
# `fat12_mount` and `fat12_format`

`fat12_mount` takes everything from the disk: the geometry from the boot sector
and the table from its first copy.  `fat12_format` leaves a volume without files.
-/

namespace KumOS.Fat12

open Lib

variable {s : State}

/-- Mounting a disk with the boot sector of `fat12_format`. -/
theorem fat12Mount_boot {d : Int} (hok : ∀ d l, s.ata.ok d l = true)
    (hboot : Bpb.decode (s.ata.sector d 0) = floppyBpb) :
    ∃ fat, fat12Mount s d = some (0, { s with
        drive := d
        mounted := true
        bpb := floppyBpb
        fatStart := 1
        rootStart := 19
        dataStart := 33
        rootSectors := 14
        totalClusters := 2847
        fat := fat
        behind := (s.ata.sector d 0).drop 62
        fatDirty := false }) ∧
      ∀ x < 4608, fat x = s.ata.sector d (1 + x / 512) (x % 512) := by
  obtain ⟨fat, hrd, -, hfat⟩ := readFat_of_ok
    (s := setGeometry { s with
      mounted := s.mountedAt.any fun o => (s.ata.sector d 0).get32 (62 + o) ≠ 0
      drive := d
      bpb := floppyBpb
      behind := (s.ata.sector d 0).drop 62 } floppyBpb)
    hok d floppyBpb.sectorsPerFat 0 (by show 1 + 0 + 9 ≤ 2 ^ 32; omega)
  refine ⟨fat, ?_, fun x hx => hfat x (by omega) (by show x < 512 * (0 + 9); omega)⟩
  unfold fat12Mount
  simp only
  rw [ataRead_of_ok (by exact hok) d (by omega)]
  simp only [hboot]
  simp only [hrd]
  rfl

theorem fat12Mount_spec {d : Int} {files : Files} (hS : Stores d s files) (hce : s.fatDirty = false) :
    ∃ s', fat12Mount s d = some (0, s') ∧ Stores d s' files ∧ s'.ata = s.ata ∧
      ∀ x < 4608, s'.fat x = s.fat x := by
  obtain ⟨hF, ch, hH⟩ := hS
  obtain ⟨fat, hmount, hfat⟩ := fat12Mount_boot hF.ok hF.boot
  have hsm : ∀ x < 4608, fat x = s.fat x := by
    intro x hx
    rw [hfat x hx]
    exact hF.synced hce 0 (by omega) x hx
  refine ⟨_, hmount, ⟨?_, ch, ?_⟩, rfl, hsm⟩
  · refine ⟨hF.ok, rfl, rfl, rfl, rfl, rfl, rfl, rfl, rfl, hF.boot, fun _ copy hcp x hx => ?_⟩
    show s.ata.sector d (1 + 9 * copy + x / 512) (x % 512) = fat x
    rw [hsm x hx]
    exact hF.synced hce copy hcp x hx
  · refine hH.frame (fun j _ => ?_) (fun c hc _ => ?_) (fun c _ _ => ?_)
    · show sectorEntry (s.ata.sector d (19 + j / 16)) (j % 16) =
        sectorEntry (s.ata.sector s.drive (s.rootStart + j / 16)) (j % 16)
      rw [hF.drive, hF.rootStart]
    · exact fatGet_congr (hsm _ (by omega)) (hsm _ (by omega))
    · show s.ata.sector d (31 + c) = s.ata.sector s.drive (31 + c)
      rw [hF.drive]

/-! ## A fresh volume -/

theorem emptyFat_eq_zero {x : Nat} (hx : 3 ≤ x) : emptyFat (x / 512) (x % 512) = 0 := by
  unfold emptyFat
  by_cases h0 : x / 512 = 0
  · have hmod : x % 512 = x := by omega
    rw [if_pos h0, hmod, Bytes.put8_ne _ (by omega), Bytes.put8_ne _ (by omega),
      Bytes.put8_ne _ (by omega)]
  · rw [if_neg h0]

/-- The disks after `fat12_format`. -/
def formatted (a : Ata) (d : Int) (label : Option Name) : Ata :=
  (((a.put d 0 (bootSector label)).putRun d 1 9 fun l => emptyFat (l - 1)).putRun d 10 9
    fun l => emptyFat (l - 10)).putRun d 19 14 fun _ _ => 0

theorem fat12Format_eq (hok : ∀ d l, s.ata.ok d l = true) (d : Int) (label : Option Name) :
    fat12Format s d label = fat12Mount { s with ata := formatted s.ata d label } d := by
  unfold fat12Format
  rw [ataWrite_of_ok hok d _ (by omega)]
  simp only
  rw [writeCopies_two (by exact hok) d emptyFat 1 9 (by omega)]
  simp only
  rw [writeSectors_of_ok (by exact hok) d _ 19 14 0 (by omega)]
  rfl

theorem formatted_fat (a : Ata) (d : Int) (label : Option Name) {copy k : Nat} (hcp : copy < 2)
    (hk : k < 9) : (formatted a d label).sector d (1 + 9 * copy + k) = emptyFat k := by
  unfold formatted
  rw [Ata.putRun_out _ _ _ (by omega)]
  by_cases h0 : copy = 0
  · rw [Ata.putRun_out _ _ _ (by omega), Ata.putRun_in _ _ _ (by omega)]
    congr 1
    omega
  · rw [Ata.putRun_in _ _ _ (by omega)]
    congr 1
    omega

theorem holds_of_all_end {V : Vol} (h : ∀ j < 224, (V.dir j).first = direntEnd) :
    Holds V (fun _ => []) (fun _ => none) := by
  have hdd : ∀ j, ¬ V.Live j := fun j hj => hj.2.1 (h j hj.1)
  refine ⟨fun j hj => absurd hj (hdd j), fun j k hj => absurd hj (hdd j),
    fun j k hj => absurd hj (hdd j), fun j k _ hk _ => h k hk, fun j hj => absurd hj (hdd j),
    fun j hj => absurd hj (hdd j), fun key data hf => ?_⟩
  cases hf

/-- `fat12_format` makes a volume without files, all of whose clusters are free. -/
theorem fat12Format_spec (hok : ∀ d l, s.ata.ok d l = true) (d : Int) (label : Option Name) :
    ∃ s', fat12Format s d label = some (0, s') ∧ Stores d s' (fun _ => none) ∧
      ∀ c, 2 ≤ c → c ≤ 2848 → (view s').next c = 0 := by
  have hboot : Bpb.decode ((formatted s.ata d label).sector d 0) = floppyBpb := by
    rw [formatted, Ata.putRun_out _ _ _ (by omega), Ata.putRun_out _ _ _ (by omega), Ata.putRun_out _ _ _ (by omega),
      Ata.put_same]
    simp [Bpb.decode, floppyBpb, bootSector, Bytes.get16, Bytes.get32, Bytes.put8, Bytes.put16,
      Bytes.put32, Bytes.copy, Bytes.fill, Function.update, Bytes.toList, Bytes.drop,
      List.range_succ, Bytes.ofList]
  obtain ⟨fat, hmount, hfat⟩ := fat12Mount_boot
    (s := { s with ata := formatted s.ata d label }) hok hboot
  have hem : ∀ x < 4608, fat x = emptyFat (x / 512) (x % 512) := by
    intro x hx
    have hcp := formatted_fat s.ata d label (show 0 < 2 by omega) (show x / 512 < 9 by omega)
    rw [hfat x hx]
    exact congrFun hcp (x % 512)
  have hze : ∀ x, 3 ≤ x → x < 4608 → fat x = 0 := by
    intro x h3 hx
    rw [hem x hx, emptyFat_eq_zero h3]
  rw [fat12Format_eq hok]
  refine ⟨_, hmount, ⟨⟨hok, rfl, rfl, rfl, rfl, rfl, rfl, rfl, rfl, hboot, ?_⟩, fun _ => [], ?_⟩, ?_⟩
  · intro _ copy hcp x hx
    show (formatted s.ata d label).sector d (1 + 9 * copy + x / 512) (x % 512) = fat x
    rw [formatted_fat s.ata d label hcp (by omega), hem x hx]
  · apply holds_of_all_end
    intro j hj
    show (sectorEntry ((formatted s.ata d label).sector d (19 + j / 16)) (j % 16)).first = direntEnd
    rw [formatted, Ata.putRun_in _ _ _ (by omega)]
    rfl
  · intro c h2 hc
    show fatGet fat c = 0
    unfold fatGet Bytes.get16
    rw [hze _ (by omega) (by omega), hze _ (by omega) (by omega)]
    simp

end KumOS.Fat12

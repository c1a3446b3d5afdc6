import KumOS.Fat12.Runs

/-!
# What `fat12_mount` makes of a boot sector

The call checks some fields of a boot sector, and none when it names a FAT volume.
`mount_ok_iff` says for which disks it and the geometry it sets up are right.
-/

namespace KumOS.Fat12

open Lib

/-- The boot sector, when `fat12_mount` goes on with it. -/
def acceptedBpb (s : State) (drive : Int) : Option Bpb :=
  ((ataRead s drive 0).map Bpb.decode).filter fun b => b.named || b.sizesOk

def Bpb.total (b : Bpb) : Nat := if b.totalSectors16 ≠ 0 then b.totalSectors16 else b.totalSectors32

/-- `fat_get(n)` reads and `fat_set(n)` writes the first `size` bytes of the table only. -/
structure InTable (size n : Nat) : Prop where
  get : ∀ fat fat' : Bytes, (∀ i < size, fat' i = fat i) → fatGet fat' n = fatGet fat n
  put : ∀ (fat : Bytes) (val i : Nat), size ≤ i → fatPut fat n val i = fat i

/-- The geometry fits the disk and the table, and `fat_alloc` comes to an end. -/
structure Usable (s : State) : Prop where
  perCluster : 1 ≤ s.bpb.sectorsPerCluster
  dataStart : s.dataStart ≤ s.bpb.total
  clusters : s.totalClusters + 2 ≤ 65535
  entries : ∀ n, 2 ≤ n → n ≤ s.totalClusters + 1 → InTable (min (512 * s.bpb.sectorsPerFat) 4608) n
  alloc : fatAlloc s ≠ none

structure MountOk (s : State) (drive : Int) : Prop where
  /-- no division by zero -/
  divides : fat12Mount s drive ≠ none
  /-- no store behind `g_fat`, whatever stood there -/
  inside : ∀ fat r s', fat12Mount { s with fat := fat } drive = some (r, s') → ∀ i, 4608 ≤ i → s'.fat i = fat i
  usable : ∀ s', fat12Mount s drive = some (0, s') → Usable s'

/-- The first sector of the data. -/
def Bpb.dataSector (b : Bpb) : Nat :=
  b.reservedSectors + b.fatCount * b.sectorsPerFat + (b.rootEntryCount * 32 + 511) / 512

/-- The table has at most nine sectors, or one of the first ten cannot be read. -/
def Nine (s : State) (drive : Int) (b : Bpb) : Prop :=
  b.sectorsPerFat ≤ 9 ∨ ∃ j ≤ 9, ataRead s drive (b.reservedSectors + j) = none

/-- The fields of the boot sector agree: at most nine sectors of the table are read, and a table that is read whole
has an entry for every cluster. -/
structure FieldsAgree (s : State) (drive : Int) (b : Bpb) : Prop where
  perCluster : b.sectorsPerCluster ≠ 0
  nine : Nine s drive b
  sizes : (∀ j < b.sectorsPerFat, ataRead s drive (b.reservedSectors + j) ≠ none) →
    b.dataSector ≤ b.total ∧ ∀ n, n = (b.total - b.dataSector) / b.sectorsPerCluster →
      n = 0 ∨ n + 1 + (n + 1) / 2 + 1 < 512 * b.sectorsPerFat

theorem inTable_iff (size n : Nat) : InTable size n ↔ n + n / 2 + 1 < size := by
  constructor
  · intro h
    by_contra hout
    -- a byte behind the table makes a difference
    have hget := h.get (fun _ => 0) (fun i => if i < size then 0 else 0x11) fun i hi => if_pos hi
    have h1 : ¬ n + n / 2 + 1 < size := hout
    unfold fatGet Bytes.get16 at hget
    simp only [if_neg h1] at hget
    split at hget <;> split at hget <;> revert hget <;> decide
  · intro hin
    refine ⟨fun fat fat' h => ?_, fun fat val i hi => ?_⟩
    · exact fatGet_congr (h _ (by omega)) (h _ hin)
    · exact fatPut_of_out fat (by omega)

/-- The bytes that are stored are those of the sectors before the first that cannot be read. -/
theorem readFat_spec (drive : Int) (n k : Nat) (s : State) : ∃ ok fat, readFat drive n k s = (ok, { s with fat := fat }) ∧
    (ok = true ↔ ∀ j, k ≤ j → j < k + n → ataRead s drive (s.fatStart + j) ≠ none) ∧
    (∀ i sec, k ≤ i / 512 → i / 512 < k + n → (∀ j, k ≤ j → j ≤ i / 512 → ataRead s drive (s.fatStart + j) ≠ none) →
      ataRead s drive (s.fatStart + i / 512) = some sec → fat i = sec (i % 512)) ∧
    ∀ i, (i / 512 < k ∨ k + n ≤ i / 512 ∨ ∃ j, k ≤ j ∧ j ≤ i / 512 ∧ ataRead s drive (s.fatStart + j) = none) →
      fat i = s.fat i := by
  induction n generalizing k s with
  | zero => exact ⟨true, s.fat, rfl, iff_of_true rfl fun j h1 h2 => by omega, fun i sec h1 h2 => by omega, fun i _ => rfl⟩
  | succ n ih =>
    unfold readFat
    cases hrd : ataRead s drive (s.fatStart + k) with
    | none =>
      refine ⟨false, s.fat, rfl, iff_of_false (by decide) fun h => h k (Nat.le_refl k) (by omega) hrd, fun i sec h1 _ h => ?_,
        fun i _ => rfl⟩
      exact absurd hrd (h k (Nat.le_refl k) h1)
    | some sec =>
      obtain ⟨ok, fat, heq, hok, hin, hout⟩ := ih (k + 1) { s with fat := s.fat.copy (512 * k) sec 512 }
      have hk : ∀ {j}, k ≤ j → ataRead s drive (s.fatStart + j) = none → k + 1 ≤ j := by
        intro j hj hno
        by_contra hlt
        rw [show j = k by omega, hrd] at hno
        cases hno
      refine ⟨ok, fat, heq, hok.trans ⟨fun h j h1 h2 hno => ?_, fun h j h1 h2 => h j (by omega) (by omega)⟩,
        fun i sec' h1 h2 h hsec => ?_, fun i hi => ?_⟩
      · exact h j (hk h1 hno) (by omega) hno
      · by_cases hik : i / 512 = k
        · rw [hik, hrd] at hsec
          cases hsec
          rw [hout i (.inl (by omega))]
          show s.fat.copy (512 * k) sec 512 i = _
          rw [Bytes.copy_of_in _ _ (by omega), show i - 512 * k = i % 512 by omega]
        · exact hin i sec' (by omega) (by omega) (fun j h1 h2 => h j (by omega) h2) hsec
      · have hnx : i / 512 < k + 1 ∨ k + 1 + n ≤ i / 512 ∨
            ∃ j, k + 1 ≤ j ∧ j ≤ i / 512 ∧ ataRead s drive (s.fatStart + j) = none := by
          rcases hi with hi | hi | ⟨j, h1, h2, h3⟩
          · exact .inl (by omega)
          · exact .inr (.inl (by omega))
          · exact .inr (.inr ⟨j, hk h1 h3, h2, h3⟩)
        rw [hout i hnx]
        refine Bytes.copy_of_out _ _ fun hc => ?_
        rcases hi with hi | hi | ⟨j, h1, h2, h3⟩
        · omega
        · omega
        · have := hk h1 h3
          omega

/-- What a boot sector can say. -/
theorem Bpb.decode_lt (m : Bytes) : (Bpb.decode m).fatCount < 2 ^ 8 ∧ (Bpb.decode m).reservedSectors < 2 ^ 16 ∧
    (Bpb.decode m).sectorsPerFat < 2 ^ 16 ∧ (Bpb.decode m).rootEntryCount < 2 ^ 16 ∧ (Bpb.decode m).total < 2 ^ 32 := by
  refine ⟨(m 16).toNat_lt, m.get16_lt 14, m.get16_lt 22, m.get16_lt 17, ?_⟩
  unfold Bpb.total
  split
  · exact Nat.lt_trans (m.get16_lt 19) (by decide)
  · exact m.get32_lt 32

theorem setGeometry_eq (s : State) (m : Bytes) : (setGeometry s (.decode m)).dataStart = (Bpb.decode m).dataSector ∧
    ((Bpb.decode m).dataSector ≤ (Bpb.decode m).total → (setGeometry s (.decode m)).totalClusters =
      ((Bpb.decode m).total - (Bpb.decode m).dataSector) / (Bpb.decode m).sectorsPerCluster) := by
  obtain ⟨h1, h2, h3, h4, h5⟩ := Bpb.decode_lt m
  generalize Bpb.decode m = b at *
  have hmul := Nat.mul_le_mul (Nat.le_of_lt_succ h1) (Nat.le_of_lt_succ h3)
  have hda : (setGeometry s b).dataStart = b.dataSector := by
    show u32 (u32 (b.reservedSectors + b.fatCount * b.sectorsPerFat) + (b.rootEntryCount * 32 + 511) / 512) = _
    unfold Bpb.dataSector u32
    omega
  refine ⟨hda, fun hle => ?_⟩
  show u32 (b.total + 2 ^ 32 - (setGeometry s b).dataStart) / b.sectorsPerCluster = _
  rw [hda]
  congr 1
  unfold u32
  omega

/-- The call ends at the boot sector, or it divides and reads the table. -/
theorem fat12Mount_cases (s : State) (drive : Int) :
    (acceptedBpb s drive = none ∧ ∃ s', fat12Mount s drive = some (-1, s') ∧ s'.fat = s.fat) ∨
    ∃ b, acceptedBpb s drive = some b ∧
      (b.sectorsPerCluster = 0 ∧ fat12Mount s drive = none ∨
        b.sectorsPerCluster ≠ 0 ∧ ∃ r s', fat12Mount s drive = some (r, s') ∧
          (r = 0 ↔ ∀ j < b.sectorsPerFat, ataRead s drive (b.reservedSectors + j) ≠ none) ∧ s'.bpb = b ∧
          s'.dataStart = b.dataSector ∧
          (b.dataSector ≤ b.total → s'.totalClusters = (b.total - b.dataSector) / b.sectorsPerCluster) ∧
          (Nine s drive b ∧ (∀ i, 4608 ≤ i → s'.fat i = s.fat i) ∨
            ¬ Nine s drive b ∧ (ataRead s drive (b.reservedSectors + 9)).map (· 0) = some (s'.fat 4608))) := by
  unfold fat12Mount acceptedBpb
  simp only [show ataRead { s with mounted := false, drive := drive } drive 0 = ataRead s drive 0 from rfl]
  cases ataRead s drive 0 with
  | none => exact .inl ⟨rfl, _, rfl, rfl⟩
  | some sec =>
    simp only [Option.map_some, Option.filter_some]
    have hgeo := fun s => setGeometry_eq s sec
    generalize Bpb.decode sec = b at hgeo
    by_cases hacc : (b.named || b.sizesOk) = true
    · refine .inr ⟨b, if_pos hacc, ?_⟩
      rw [if_neg (by rw [← Bool.not_or, hacc]; decide)]
      by_cases h0 : b.sectorsPerCluster = 0
      · exact .inl ⟨h0, if_pos h0⟩
      generalize hs1 : ({ s with
        drive := drive
        mounted := _
        bpb := b
        behind := _ } : State) = s1
      obtain ⟨hda, hct⟩ := hgeo s1
      obtain ⟨ok, fat, heq, hok, hin, hout⟩ := readFat_spec drive b.sectorsPerFat 0 (setGeometry s1 b)
      simp only [Nat.zero_add, Nat.zero_le, true_imp_iff, true_and, Nat.not_lt_zero, false_or] at hok hin hout
      have hata : ∀ j, ataRead (setGeometry s1 b) drive ((setGeometry s1 b).fatStart + j) =
          ataRead s drive (b.reservedSectors + j) := by
        intro j
        rw [← hs1]
        rfl
      simp only [hata] at hok hin hout
      have hfat : Nine s drive b ∧ (∀ i, 4608 ≤ i → fat i = s.fat i) ∨
          ¬ Nine s drive b ∧ (ataRead s drive (b.reservedSectors + 9)).map (· 0) = some (fat 4608) := by
        by_cases hnine : Nine s drive b
        · refine .inl ⟨hnine, fun i hi => (hout i (hnine.imp (by omega) ?_)).trans (by rw [← hs1]; rfl)⟩
          rintro ⟨j, hj, hno⟩
          exact ⟨j, by omega, hno⟩
        · refine .inr ⟨hnine, ?_⟩
          rw [Nine, not_or, not_exists] at hnine
          have hall : ∀ j ≤ 9, ataRead s drive (b.reservedSectors + j) ≠ none := fun j hj hno => hnine.2 j ⟨hj, hno⟩
          obtain ⟨sec9, hsec⟩ := Option.ne_none_iff_exists'.1 (hall 9 (Nat.le_refl 9))
          rw [hsec, hin 4608 sec9 (by omega) hall hsec]
          rfl
      rw [if_neg h0, heq]
      have hbpb : s1.bpb = b := by rw [← hs1]
      refine .inr ⟨h0, ?_⟩
      cases ok with
      | false => exact ⟨-1, _, rfl, iff_of_false (by decide) fun h => absurd (hok.2 h) (by decide), hbpb, hda, hct, hfat⟩
      | true => exact ⟨0, _, rfl, iff_of_true rfl (hok.1 rfl), hbpb, hda, hct, hfat⟩
    · refine .inl ⟨if_neg hacc, _, if_pos ?_, rfl⟩
      rw [← Bool.not_or, Bool.not_eq_true']
      exact Bool.eq_false_iff.2 hacc

/-- **Mounting.**  The call does no harm and leaves a geometry it can use exactly when the fields of a boot sector that
it accepts agree. -/
theorem mount_ok_iff (s : State) (drive : Int) :
    MountOk s drive ↔ ∀ b, acceptedBpb s drive = some b → FieldsAgree s drive b := by
  rcases fat12Mount_cases s drive with ⟨hno, s', hm, -⟩ | ⟨b, hb, ⟨h0, hm⟩ | ⟨h0, r, s', hm, hr, hbpb, hda, hct, -⟩⟩
  · rw [hno]
    refine iff_of_true ⟨by rw [hm]; exact Option.some_ne_none _, fun fat r s1 h => ?_, fun s1 h => ?_⟩ nofun
    · rcases fat12Mount_cases { s with fat := fat } drive with ⟨-, s2, hm2, hfat⟩ | ⟨b, hb, -⟩
      · rw [hm2] at h
        cases h
        exact fun i _ => congrFun hfat i
      · rw [show acceptedBpb { s with fat := fat } drive = acceptedBpb s drive from rfl, hno] at hb
        cases hb
    · rw [hm] at h
      cases h
  · exact iff_of_false (fun h => h.divides hm) fun h => (h b hb).perCluster h0
  -- the bytes behind `g_fat`, for any contents before the call
  have hstores : ∀ fat, ∃ r s1, fat12Mount { s with fat := fat } drive = some (r, s1) ∧
      (Nine s drive b ∧ (∀ i, 4608 ≤ i → s1.fat i = fat i) ∨
        ¬ Nine s drive b ∧ (ataRead s drive (b.reservedSectors + 9)).map (· 0) = some (s1.fat 4608)) := by
    intro fat
    have hb' : acceptedBpb { s with fat := fat } drive = some b := hb
    rcases fat12Mount_cases { s with fat := fat } drive with ⟨hno, -⟩ | ⟨b', hb2, ⟨h0', -⟩ | ⟨-, r1, s1, hm1, -, -, -, -, hfat⟩⟩
    · rw [hno] at hb'
      cases hb'
    · cases hb'.symm.trans hb2
      exact absurd h0' h0
    · cases hb'.symm.trans hb2
      exact ⟨r1, s1, hm1, hfat⟩
  rw [hb]
  constructor
  · rintro ⟨-, hinside, husable⟩ b' hb'
    obtain rfl := Option.some.inj hb'
    refine ⟨h0, ?_, fun hall => ?_⟩
    · by_contra hnine
      -- memory that differs from the byte that is stored
      obtain ⟨r1, s1, hm1, hfat⟩ := hstores fun _ => ((ataRead s drive (b.reservedSectors + 9)).map (· 0)).getD 0 + 1
      have hkept := hinside _ r1 s1 hm1 4608 (Nat.le_refl _)
      rw [(hfat.resolve_left fun h => hnine h.1).2, Option.getD_some] at hkept
      simp at hkept
    · obtain rfl := hr.2 hall
      obtain ⟨-, hft, -, hentries, -⟩ := husable s' hm
      rw [hbpb] at hft hentries
      rw [hda] at hft
      refine ⟨hft, fun n hn => ?_⟩
      rw [hct hft, ← hn] at hentries
      by_cases hn0 : n = 0
      · exact .inl hn0
      have := (inTable_iff _ _).1 (hentries (n + 1) (by omega) (Nat.le_refl _))
      omega
  · intro h
    obtain ⟨-, hnine, hsizes⟩ := h b rfl
    refine ⟨by rw [hm]; exact Option.some_ne_none _, fun fat r1 s1 h1 => ?_, fun s1 h1 => ?_⟩
    · obtain ⟨r2, s2, hm2, hfat⟩ := hstores fat
      cases h1.symm.trans hm2
      exact (hfat.resolve_right fun h => h.1 hnine).2
    · rw [hm] at h1
      cases h1
      have hall := hr.1 rfl
      have hfat : b.sectorsPerFat ≤ 9 := by
        by_contra hlt
        obtain ⟨j, hj, hno⟩ := hnine.resolve_left hlt
        exact hall j (by omega) hno
      obtain ⟨hft, hentries⟩ := hsizes hall
      have := hentries _ rfl
      rw [← hct hft] at this
      refine ⟨by rw [hbpb]; exact Nat.pos_of_ne_zero h0, by rw [hbpb, hda]; exact hft, by omega,
        fun n h2 hn => (inTable_iff _ _).2 (by rw [hbpb]; omega), ?_⟩
      rcases fatAlloc_spec s' (by omega) with ⟨he, -⟩ | ⟨c, he, -⟩ <;> rw [he] <;> exact Option.some_ne_none _

/-- A boot sector of zeros, but for the name of the file system. -/
def namedSector : Bytes := .ofList (List.replicate 54 0 ++ [70, 65, 84, 49, 50])

theorem mount_divides_by_zero : fat12Mount { initial with ata := ⟨fun _ _ => true, fun _ _ => namedSector⟩ } 0 = none ∧
    ¬ MountOk { initial with ata := ⟨fun _ _ => true, fun _ _ => namedSector⟩ } 0 := by
  have h : fat12Mount { initial with ata := ⟨fun _ _ => true, fun _ _ => namedSector⟩ } 0 = none := rfl
  exact ⟨h, fun hok => hok.divides h⟩

end KumOS.Fat12

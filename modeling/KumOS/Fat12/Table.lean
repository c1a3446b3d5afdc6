import KumOS.Fat12.Model

/-!
# The allocation table

Packed twelve-bit entries behave as a table of numbers: `fatPut` changes the
entry it names and no other.  `fat_alloc` is a first-fit search of that table,
and `fat_flush` and `fat12_mount` move it to and from the disk.
-/

namespace KumOS.Fat12

open Lib
open Bytes (get16 put8_ne put8_same)
open Function (update update_of_ne update_self)

variable {l lba n val : Nat} {s : State}

/-! ## Packed entries -/

theorem fatGet_even (fat : Bytes) (k : Nat) :
    fatGet fat (2 * k) = (fat (3 * k)).toNat + 256 * ((fat (3 * k + 1)).toNat % 16) := by
  have hidx : 2 * k + 2 * k / 2 = 3 * k := by omega
  have h0 := (fat (3 * k)).toNat_lt
  unfold fatGet get16
  rw [hidx, if_neg (by omega)]
  omega

theorem fatGet_odd (fat : Bytes) (k : Nat) :
    fatGet fat (2 * k + 1) = (fat (3 * k + 1)).toNat / 16 + 16 * (fat (3 * k + 2)).toNat := by
  have hidx : 2 * k + 1 + (2 * k + 1) / 2 = 3 * k + 1 := by omega
  unfold fatGet get16
  rw [hidx, if_pos (by omega)]
  show ((fat (3 * k + 1)).toNat + 2 ^ 8 * (fat (3 * k + 2)).toNat) / 2 ^ 4 = _
  omega

theorem fatPut_even (fat : Bytes) (k val : Nat) :
    fatPut fat (2 * k) val = (fat.put8 (3 * k) (val % 256)).put8 (3 * k + 1)
      ((fat (3 * k + 1)).toNat / 16 * 16 + val / 256 % 16) := by
  have hidx : 2 * k + 2 * k / 2 = 3 * k := by omega
  unfold fatPut
  rw [hidx, if_neg (by omega)]

theorem fatPut_odd (fat : Bytes) (k val : Nat) :
    fatPut fat (2 * k + 1) val = (fat.put8 (3 * k + 1)
      ((fat (3 * k + 1)).toNat % 16 + val % 16 * 16)).put8 (3 * k + 2) (val / 16 % 256) := by
  have hidx : 2 * k + 1 + (2 * k + 1) / 2 = 3 * k + 1 := by omega
  unfold fatPut
  rw [hidx, if_pos (by omega)]

theorem fatGet_congr {fat fat' : Bytes} (h0 : fat (n + n / 2) = fat' (n + n / 2))
    (h1 : fat (n + n / 2 + 1) = fat' (n + n / 2 + 1)) : fatGet fat n = fatGet fat' n := by
  unfold fatGet get16
  rw [h0, h1]

theorem fatPut_of_out (fat : Bytes) {x : Nat} (h : x < n + n / 2 ∨ n + n / 2 + 2 ≤ x) : fatPut fat n val x = fat x := by
  unfold fatPut
  split
  · rw [put8_ne _ (by omega), put8_ne _ (by omega)]
  · rw [put8_ne _ (by omega), put8_ne _ (by omega)]

theorem fatGet_fatPut_same (fat : Bytes) (n val : Nat) : fatGet (fatPut fat n val) n = val % 2 ^ 12 := by
  obtain ⟨k, rfl | rfl⟩ : ∃ k, n = 2 * k ∨ n = 2 * k + 1 := ⟨n / 2, by omega⟩
  · rw [fatGet_even, fatPut_even, put8_same, put8_ne _ (by omega), put8_same,
      UInt8.toNat_ofNat', UInt8.toNat_ofNat']
    omega
  · rw [fatGet_odd, fatPut_odd, put8_same, put8_ne _ (by omega), put8_same,
      UInt8.toNat_ofNat', UInt8.toNat_ofNat']
    omega

theorem fatGet_fatPut_ne (fat : Bytes) {m : Nat} (val : Nat) (hne : m ≠ n) :
    fatGet (fatPut fat n val) m = fatGet fat m := by
  by_cases hpair : m / 2 = n / 2
  · -- the two entries share the middle byte of three; each keeps the other's half of it
    obtain ⟨k, rfl | rfl⟩ : ∃ k, n = 2 * k ∨ n = 2 * k + 1 := ⟨n / 2, by omega⟩
    · obtain rfl : m = 2 * k + 1 := by omega
      have h1 := (fat (3 * k + 1)).toNat_lt
      rw [fatGet_odd, fatGet_odd, fatPut_even, put8_same, put8_ne _ (by omega),
        put8_ne _ (by omega), UInt8.toNat_ofNat']
      omega
    obtain rfl : m = 2 * k := by omega
    rw [fatGet_even, fatGet_even, fatPut_odd, put8_ne _ (by omega),
      put8_ne _ (by omega), put8_ne _ (by omega), put8_same,
      UInt8.toNat_ofNat']
    omega
  · exact fatGet_congr (fatPut_of_out fat (by omega)) (fatPut_of_out fat (by omega))

theorem fatGet_fatPut (fat : Bytes) (n m : Nat) (hv : val < 2 ^ 12) :
    fatGet (fatPut fat n val) m = if m = n then val else fatGet fat m := by
  by_cases h : m = n
  · rw [if_pos h, h, fatGet_fatPut_same, Nat.mod_eq_of_lt hv]
  · rw [if_neg h, fatGet_fatPut_ne fat val h]

theorem fatGet_fatSet (s : State) (n val : Nat) :
    fatGet (fatSet s n val).fat = update (fatGet s.fat) n (val % 2 ^ 12) := by
  funext m
  by_cases h : m = n
  · rw [h, update_self]
    exact fatGet_fatPut_same s.fat n val
  · rw [update_of_ne h]
    exact fatGet_fatPut_ne s.fat val h

/-- **The packed table is an array of twelve-bit values**: `fat_set` updates one of them, any sequence
of calls has the effect of the same updates, and the entries of `g_fat` are inside it. -/
theorem fat_is_array (s : State) :
    (∀ n val, fatGet (fatSet s n val).fat = update (fatGet s.fat) n (val % 2 ^ 12)) ∧
      (∀ ops : List (Nat × Nat), fatGet (ops.foldl (fun s op => fatSet s op.1 op.2) s).fat =
        ops.foldl (fun a op => update a op.1 (op.2 % 2 ^ 12)) (fatGet s.fat)) ∧
      ∀ n < 3072, n + n / 2 + 1 < 4608 ∧
        (∀ fat : Bytes, (∀ x < 4608, fat x = s.fat x) → fatGet fat n = fatGet s.fat n) ∧
        ∀ val, ∀ x ≥ 4608, (fatSet s n val).fat x = s.fat x := by
  refine ⟨fatGet_fatSet s, fun ops => ?_, fun n hn => ⟨by omega, fun fat hfat => ?_, fun val x hx => ?_⟩⟩
  · induction ops generalizing s with
    | nil => rfl
    | cons op ops ih => rw [List.foldl_cons, List.foldl_cons, ih, fatGet_fatSet]
  · exact fatGet_congr (hfat _ (by omega)) (hfat _ (by omega))
  · exact fatPut_of_out s.fat (by omega)

/-! ## First fit -/

theorem allocLoop_spec (fat : Bytes) {total : Nat} (ht : total + 2 < 2 ^ 16) (fuel i : Nat)
    (hi : i ≤ total + 2) (hfuel : total + 2 < i + fuel) :
    allocLoop fat total fuel i = some none ∧ (∀ c, i ≤ c → c < total + 2 → fatGet fat c ≠ 0) ∨
    ∃ c, allocLoop fat total fuel i = some (some c) ∧ i ≤ c ∧ c < total + 2 ∧ fatGet fat c = 0 := by
  induction fuel generalizing i with
  | zero => omega
  | succ fuel ih =>
    have hu : u32 (total + 2) = total + 2 := Nat.mod_eq_of_lt (by omega)
    unfold allocLoop
    rw [hu]
    by_cases hlt : i < total + 2
    · rw [if_pos hlt]
      by_cases hfr : fatGet fat i = 0
      · exact .inr ⟨i, if_pos hfr, Nat.le_refl i, hlt, hfr⟩
      rw [if_neg hfr, Nat.mod_eq_of_lt (by omega)]
      rcases ih (i + 1) (by omega) (by omega) with ⟨hnn, hall⟩ | ⟨c, hso, hic, hct, hc⟩
      · refine .inl ⟨hnn, fun c hic hct => ?_⟩
        rcases Nat.eq_or_lt_of_le hic with rfl | hlt'
        · exact hfr
        · exact hall c hlt' hct
      · exact .inr ⟨c, hso, by omega, hct, hc⟩
    · exact .inl ⟨if_neg hlt, fun c hic hct => by omega⟩

/-- `fat_alloc` takes a free cluster and marks it as the end of a chain, or finds none. -/
theorem fatAlloc_spec (s : State) (ht : s.totalClusters + 2 < 2 ^ 16) :
    fatAlloc s = some (0, s) ∧ (∀ c, 2 ≤ c → c < s.totalClusters + 2 → fatGet s.fat c ≠ 0) ∨
    ∃ c, fatAlloc s = some (c, fatSet s c 0xFFF) ∧ 2 ≤ c ∧ c < s.totalClusters + 2 ∧
      fatGet s.fat c = 0 := by
  unfold fatAlloc
  rcases allocLoop_spec s.fat ht (0x10001) 2 (by omega) (by omega) with
    ⟨hnn, hall⟩ | ⟨c, hso, h2, hc, hfr⟩
  · rw [hnn]
    exact .inl ⟨rfl, hall⟩
  · rw [hso]
    exact .inr ⟨c, rfl, h2, hc, hfr⟩

/-! ## Runs of sectors -/

/-- The disks after the sectors `lba, …, lba + n - 1` of a drive were written. -/
def Ata.putRun (a : Ata) (drive : Int) (lba n : Nat) (content : Nat → Bytes) : Ata :=
  { a with
    sector := fun d l => if d = drive ∧ lba ≤ l ∧ l < lba + n then content l else a.sector d l }

theorem Ata.put_same (a : Ata) (drive : Int) (lba : Nat) (buf : Bytes) :
    (a.put drive lba buf).sector drive lba = buf := if_pos ⟨rfl, rfl⟩

theorem Ata.put_ne (a : Ata) (drive : Int) (buf : Bytes) (h : l ≠ lba) :
    (a.put drive lba buf).sector drive l = a.sector drive l := if_neg fun hl => h hl.2

theorem Ata.putRun_in (a : Ata) (drive : Int) (content : Nat → Bytes) (h : lba ≤ l ∧ l < lba + n) :
    (a.putRun drive lba n content).sector drive l = content l :=
  if_pos ⟨rfl, h⟩

theorem Ata.putRun_out (a : Ata) (drive : Int) (content : Nat → Bytes) (h : ¬ (lba ≤ l ∧ l < lba + n)) :
    (a.putRun drive lba n content).sector drive l = a.sector drive l := if_neg fun hl => h hl.2

theorem Ata.put_putRun (a : Ata) (drive : Int) (lba n : Nat) (content : Nat → Bytes) :
    (a.put drive lba (content lba)).putRun drive (lba + 1) n content = a.putRun drive lba (n + 1) content := by
  unfold putRun put
  congr 1
  funext d l
  show (if d = drive ∧ lba + 1 ≤ l ∧ l < lba + 1 + n then content l
    else if d = drive ∧ l = lba then content lba else a.sector d l) =
    if d = drive ∧ lba ≤ l ∧ l < lba + (n + 1) then content l else a.sector d l
  by_cases hd : d = drive
  · by_cases hl : l = lba
    · subst hl
      rw [if_neg (by omega), if_pos ⟨hd, rfl⟩, if_pos (by omega)]
    · by_cases hin : lba + 1 ≤ l ∧ l < lba + 1 + n
      · rw [if_pos ⟨hd, hin⟩, if_pos ⟨hd, by omega⟩]
      · rw [if_neg (fun h => hin h.2), if_neg (fun h => hl h.2), if_neg (fun h => hin (by omega))]
  · rw [if_neg (fun h => hd h.1), if_neg (fun h => hd h.1), if_neg (fun h => hd h.1)]

theorem ataRead_of_ok (hok : ∀ d l, s.ata.ok d l = true) (drive : Int) (h : lba < 2 ^ 32) :
    ataRead s drive lba = some (s.ata.sector drive lba) := by
  have hu : u32 lba = lba := Nat.mod_eq_of_lt h
  unfold ataRead
  rw [hu, if_pos (hok drive lba)]

theorem ataWrite_of_ok (hok : ∀ d l, s.ata.ok d l = true) (drive : Int) (buf : Bytes) (h : lba < 2 ^ 32) :
    ataWrite s drive lba buf = some { s with ata := s.ata.put drive lba buf } := by
  have hu : u32 lba = lba := Nat.mod_eq_of_lt h
  unfold ataWrite
  rw [hu, if_pos (hok drive lba)]

theorem writeSectors_of_ok (hok : ∀ d l, s.ata.ok d l = true) (drive : Int) (content : Nat → Bytes)
    (lba n k : Nat) (h : lba + k + n ≤ 2 ^ 32) :
    writeSectors drive content lba n k s =
      (true, { s with ata := s.ata.putRun drive (lba + k) n fun l => content (l - lba) }) := by
  induction n generalizing k s with
  | zero =>
    have hem : s.ata.putRun drive (lba + k) 0 (fun l => content (l - lba)) = s.ata := by
      unfold Ata.putRun
      congr 1
      funext d l
      exact if_neg (by omega)
    rw [hem]
    rfl
  | succ n ih =>
    have hk : content k = (fun l => content (l - lba)) (lba + k) := by
      show content k = content (lba + k - lba)
      rw [Nat.add_sub_cancel_left]
    unfold writeSectors
    rw [ataWrite_of_ok hok drive _ (by omega)]
    show writeSectors drive content lba n (k + 1)
      { s with ata := s.ata.put drive (lba + k) (content k) } = _
    rw [ih (s := { s with ata := s.ata.put drive (lba + k) (content k) }) hok (k + 1) (by omega), hk]
    exact congrArg (fun a => (true, { s with ata := a })) (s.ata.put_putRun drive (lba + k) n _)

theorem writeCopies_succ {s' : State} {drive : Int} {content : Nat → Bytes} {sects copy : Nat}
    (h : writeSectors drive content (lba + copy * sects) sects 0 s = (true, s')) :
    writeCopies drive content lba sects (n + 1) copy s = writeCopies drive content lba sects n (copy + 1) s' := by
  rw [writeCopies, h]

theorem writeCopies_two (hok : ∀ d l, s.ata.ok d l = true) (drive : Int) (content : Nat → Bytes)
    (lba n : Nat) (h : lba + n + n ≤ 2 ^ 32) :
    writeCopies drive content lba n 2 0 s =
      (true, { s with
        ata := (s.ata.putRun drive lba n fun l => content (l - lba)).putRun drive (lba + n) n
          fun l => content (l - (lba + n)) }) := by
  have hfi := writeSectors_of_ok hok drive content lba n 0 (by omega)
  have hsecond := writeSectors_of_ok
    (s := { s with ata := s.ata.putRun drive lba n fun l => content (l - lba) }) hok drive content
    (lba + n) n 0 (by omega)
  rw [writeCopies_succ (by rw [Nat.zero_mul]; exact hfi),
    writeCopies_succ (by rw [Nat.zero_add, Nat.one_mul]; exact hsecond)]
  rfl

/-! ## Reading the table -/

theorem readFat_of_ok (hok : ∀ d l, s.ata.ok d l = true) (drive : Int) (n k : Nat) (h : s.fatStart + k + n ≤ 2 ^ 32) :
    ∃ fat, readFat drive n k s = (true, { s with fat := fat }) ∧
      (∀ x, x < 512 * k → fat x = s.fat x) ∧
      ∀ x, 512 * k ≤ x → x < 512 * (k + n) → fat x = s.ata.sector drive (s.fatStart + x / 512) (x % 512) := by
  induction n generalizing k s with
  | zero => exact ⟨s.fat, rfl, fun x _ => rfl, fun x h1 h2 => by omega⟩
  | succ n ih =>
    unfold readFat
    rw [ataRead_of_ok hok drive (by omega)]
    obtain ⟨fat, hrun, hlow, hhigh⟩ := ih
      (s := { s with fat := s.fat.copy (512 * k) (s.ata.sector drive (s.fatStart + k)) 512 })
      hok (k + 1) (by show s.fatStart + (k + 1) + n ≤ 2 ^ 32; omega)
    refine ⟨fat, hrun, fun x hx => ?_, fun x h1 h2 => ?_⟩
    · rw [hlow x (by omega)]
      exact Bytes.copy_of_out _ _ (by omega)
    · by_cases hx : x < 512 * (k + 1)
      · have hdiv : x / 512 = k := by omega
        have hmod : x - 512 * k = x % 512 := by omega
        rw [hlow x hx, hdiv, ← hmod]
        exact Bytes.copy_of_in _ _ (by omega)
      · exact hhigh x (by omega) (by omega)

end KumOS.Fat12

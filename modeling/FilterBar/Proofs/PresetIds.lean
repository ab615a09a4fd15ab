import Mathlib.Data.List.Nodup
import Mathlib.Data.List.Perm.Subperm
import Mathlib.Data.Nat.Find
import Mathlib.Order.Bounds.Defs
import FilterBar.Proofs.Keyed
import FilterBar.Proofs.SharedPresets

/-!
# Identifiers of presets

A new preset takes the first time from the reading of the clock on whose identifier is not taken.
Different times give different identifiers, so of one more time than there are presets one is free,
and the search ends there.  The new identifier is free whatever the clock reads, and no other change
touches identifiers, so stores that share their presets keep the identifiers distinct.

Times are integers.  A clock of 64 bits shows the same ones as long as its reading is as many
milliseconds away from the end of its range as there are presets.
-/

namespace FilterBar

namespace Preset

variable {taken : List String} {millis : Int}

theorem natRepr_inj {m n : Nat} (h : m.repr = n.repr) : m = n := by
  have hdigits : Nat.toDigits 10 m = Nat.toDigits 10 n := by
    rw [← Nat.toList_repr, h, Nat.toList_repr]
  rw [← Nat.ofDigitChars_ten_toDigits (n := m), hdigits, Nat.ofDigitChars_ten_toDigits]

/-- The digits of a number start with no sign. -/
theorem natRepr_ne_minus (m n : Nat) : m.repr ≠ "-" ++ n.repr := by
  intro h
  have hminus : '-' ∈ Nat.toDigits 10 m := by
    rw [← Nat.toList_repr, h, String.toList_append]
    exact List.mem_append_left _ (List.mem_singleton_self '-')
  exact absurd (Nat.isDigit_of_mem_toDigits (by decide) (by decide) hminus) (by decide)

theorem intRepr_inj : ∀ {a b : Int}, a.repr = b.repr → a = b
  | .ofNat _, .ofNat _, h => congrArg Int.ofNat (natRepr_inj h)
  | .ofNat m, .negSucc n, h => absurd h (natRepr_ne_minus m n.succ)
  | .negSucc m, .ofNat n, h => absurd h.symm (natRepr_ne_minus n m.succ)
  | .negSucc _, .negSucc _, h =>
    congrArg Int.negSucc (Nat.succ.inj (natRepr_inj ((String.append_right_inj "-").mp h)))

theorem idAt_inj {a b : Int} (h : idAt a = idAt b) : a = b := by
  rw [idAt, idAt, String.append_right_inj, Int.toString_eq_repr, Int.toString_eq_repr] at h
  exact intRepr_inj h

/-- One of the times that follow a reading is free, at most as late as there are identifiers. -/
theorem exists_free (taken : List String) (millis : Int) :
    ∃ n : Nat, n ≤ taken.length ∧ idAt (millis + n) ∉ taken := by
  by_contra hnone
  have hsubset : (List.range (taken.length + 1)).map (fun n : Nat => idAt (millis + n)) ⊆ taken := by
    intro id hid
    obtain ⟨n, hn, rfl⟩ := List.mem_map.mp hid
    by_contra hfree
    exact hnone ⟨n, Nat.le_of_lt_succ (List.mem_range.mp hn), hfree⟩
  have hnodup : ((List.range (taken.length + 1)).map fun n : Nat => idAt (millis + n)).Nodup := by
    refine List.nodup_range.map ?_
    intro m n hid
    have htimes := idAt_inj hid
    omega
  have hlength := (List.subperm_of_subset hnodup hsubset).length_le
  rw [List.length_map, List.length_range] at hlength
  omega

/-- The first free time, as its distance from a reading. -/
theorem exists_first_free (taken : List String) (millis : Int) :
    ∃ wait : Nat, wait ≤ taken.length ∧ idAt (millis + wait) ∉ taken ∧
      ∀ n : Nat, n < wait → idAt (millis + n) ∈ taken := by
  classical
  obtain ⟨n, hn, hfree⟩ := exists_free taken millis
  have hexists : ∃ n : Nat, idAt (millis + n) ∉ taken := ⟨n, hfree⟩
  refine ⟨Nat.find hexists, ?_, Nat.find_spec hexists, ?_⟩
  · exact (Nat.find_min' hexists hfree).trans hn
  · intro m hm
    exact not_not.mp (Nat.find_min hexists hm)

/-- The search comes to the first free time with one more try than there are times before it. -/
theorem freeMillis?_eq {wait : Nat} (hfree : idAt (millis + wait) ∉ taken)
    (htaken : ∀ n : Nat, n < wait → idAt (millis + n) ∈ taken) (tries : Nat) :
    freeMillis? taken millis tries = if wait < tries then some (millis + wait) else none := by
  induction tries generalizing millis wait with
  | zero => rfl
  | succ tries ih =>
    simp only [freeMillis?, List.contains_iff_mem]
    cases wait with
    | zero =>
      rw [Int.natCast_zero, Int.add_zero] at hfree ⊢
      rw [if_neg hfree, if_pos (Nat.succ_pos tries)]
    | succ wait =>
      have hfirst : idAt millis ∈ taken := by
        have hzero := htaken 0 (Nat.succ_pos wait)
        rwa [Int.natCast_zero, Int.add_zero] at hzero
      have hshift (n : Nat) : millis + 1 + n = millis + (n + 1 : Nat) := by omega
      have hnext := ih (hshift wait ▸ hfree) fun n hn => hshift n ▸ htaken _ (Nat.succ_lt_succ hn)
      rw [if_pos hfirst, hnext, hshift]
      simp only [Nat.succ_lt_succ_iff]

/-- A new identifier is that of the first free time, which the search reaches within one more try
than there are identifiers. -/
theorem nextId_spec (taken : List String) (millis : Int) :
    ∃ wait : Nat, wait ≤ taken.length ∧
      (∀ tries, freeMillis? taken millis tries =
        if wait < tries then some (millis + wait) else none) ∧
      nextId taken millis = idAt (millis + wait) ∧
      IsLeast {time | millis ≤ time ∧ idAt time ∉ taken} (millis + wait) := by
  obtain ⟨wait, hle, hfree, htaken⟩ := exists_first_free taken millis
  have hsearch := freeMillis?_eq hfree htaken
  refine ⟨wait, hle, hsearch, ?_, ⟨by omega, hfree⟩, ?_⟩
  · rw [nextId, hsearch, if_pos (Nat.lt_succ_of_le hle), Option.getD_some]
  · rintro time ⟨hlate, htime⟩
    by_contra hearly
    have hwithin : (time - millis).toNat < wait := by omega
    have htimes : millis + ((time - millis).toNat : Int) = time := by omega
    exact htime (htimes ▸ htaken _ hwithin)

/-- No time that is tried leaves the range of 64 bits if the reading is as far from its end as there
are identifiers. -/
theorem toInt_ofInt_of_far {length n : Nat} (hmin : Int64.minValue.toInt ≤ millis)
    (hmax : millis + length ≤ Int64.maxValue.toInt) (hn : n ≤ length) :
    (Int64.ofInt (millis + n)).toInt = millis + n := by
  rw [Int64.toInt_minValue] at hmin
  rw [Int64.toInt_maxValue] at hmax
  apply Int64.toInt_ofInt_of_le
  · omega
  · omega

theorem nextId_notMem (taken : List String) (millis : Int) : nextId taken millis ∉ taken := by
  obtain ⟨wait, -, -, hnext, hleast⟩ := nextId_spec taken millis
  rw [hnext]
  exact hleast.1.2

end Preset

/-! ## What operations do to identifiers -/

theorem PresetChange.map_id_rename (id name description : String) (presets : List Preset) :
    (rename id name description presets).map (·.id) = presets.map (·.id) := by
  induction presets with
  | nil => rfl
  | cons p rest ih =>
    rw [rename]
    split
    · rfl
    · rw [List.map_cons, List.map_cons, ih]

theorem PresetChange.nodup_ids_apply {presets : List Preset} (h : (presets.map (·.id)).Nodup)
    (c : PresetChange) : ((c.apply presets).map (·.id)).Nodup := by
  cases c with
  | save d millis created =>
    rw [apply, List.map_append, List.map_singleton, ← List.concat_eq_append]
    exact h.concat (Preset.nextId_notMem _ millis)
  | update id name description =>
    rw [apply, ← rename_eq_modify, map_id_rename]
    exact h
  | delete id => exact Keyed.nodup_map_filter _ h

/-- Every operation keeps the identifiers of a list of presets distinct. -/
theorem StoreOperation.nodup_ids_apply {presets : List Preset} (h : (presets.map (·.id)).Nodup)
    (op : StoreOperation) : ((op.apply presets).map (·.id)).Nodup := by
  cases op with
  | load => exact h
  | change c => exact PresetChange.nodup_ids_apply h c

variable {ι : Type}

theorem nodup_ids_presetsAfter {presets : List Preset} (h : (presets.map (·.id)).Nodup)
    (events : List (ι × StoreOperation)) : ((presetsAfter presets events).map (·.id)).Nodup := by
  induction events generalizing presets with
  | nil => exact h
  | cons event rest ih => exact ih (event.2.nodup_ids_apply h)

namespace SharedStores

variable [DecidableEq ι]

/-- A new preset is named after the first time from the reading of the clock on whose identifier is
not taken, and the search for it ends within one more try than there are presets.  All times that it
tries fit 64 bits if the reading is that far from their end.  Stores work on one key, in any order
and with any readings of the clock.  If nothing is stored there at the start, or no list of presets,
or one with distinct identifiers, then the identifiers of the stored presets are distinct at the
end. -/
theorem ids_of_shared_stores (w : SharedStores ι) {key : String}
    (hkeys : ∀ i, (w.stores i).key = key)
    (hinitial : ∀ text presets, w.storage.get? key = some text →
      Preset.readAll? text = some presets → (presets.map (·.id)).Nodup) :
    (∀ (presets : List Preset) (millis : Int), ∃ wait : Nat, wait ≤ presets.length ∧
      (∀ tries, Preset.freeMillis? (presets.map (·.id)) millis tries =
        if wait < tries then some (millis + wait) else none) ∧
      Preset.nextId (presets.map (·.id)) millis = Preset.idAt (millis + wait) ∧
      IsLeast {time | millis ≤ time ∧ Preset.idAt time ∉ presets.map (·.id)} (millis + wait) ∧
      (Int64.minValue.toInt ≤ millis → millis + presets.length ≤ Int64.maxValue.toInt →
        ∀ n : Nat, n ≤ wait → (Int64.ofInt (millis + n)).toInt = millis + n)) ∧
    ∀ events, (((w.run events).storage.presets key).map (·.id)).Nodup := by
  constructor
  · intro presets millis
    obtain ⟨wait, hle, hsearch, hnext, hleast⟩ := Preset.nextId_spec (presets.map (·.id)) millis
    rw [List.length_map] at hle
    refine ⟨wait, hle, hsearch, hnext, hleast, ?_⟩
    intro hmin hmax n hn
    exact Preset.toInt_ofInt_of_far hmin hmax (hn.trans hle)
  · intro events
    have hdistinct : ((w.storage.presets key).map (·.id)).Nodup := by
      rw [Storage.presets]
      cases htext : w.storage.get? key with
      | none => exact List.nodup_nil
      | some text =>
        rw [Option.bind_some]
        cases hread : Preset.readAll? text with
        | none => exact List.nodup_nil
        | some presets => exact hinitial text presets htext hread
    have hholds : Holds w key (w.storage.presets key) := ⟨hkeys, rfl⟩
    rw [(hholds.run events).stored]
    exact nodup_ids_presetsAfter hdistinct events

/-- A preset of time 5 is stored.  Two stores save three more, and between them the clock steps back:
the second of them is made at time 4, and the third too, for which 4, 5 and 6 are taken.  Beside the
stored preset, a new one has no later time than 6. -/
theorem ids_of_shared_stores_clock_back :
    let key := storageKey "executions" ⟨some "executions/list", ""⟩
    let day : Instant := ⟨⟨2016, 12, 31, by decide⟩,
      ⟨0, 0, 0, 0, by decide, by decide, by decide, by decide⟩⟩
    let stored : Preset := ⟨"saved_5", "prod", "", [], none, day⟩
    let draft : Draft := ⟨"dev", "", [], none⟩
    let w : SharedStores Bool :=
      ⟨Table.empty.insert key (Preset.writeAll [stored]), fun _ => ⟨key, []⟩⟩
    let events : List (Bool × StoreOperation) :=
      [(true, .change (.save draft 5 day)), (false, .change (.save draft 4 day)),
        (true, .change (.save draft 4 day))]
    (∀ i, (w.stores i).key = key) ∧
      (∀ text presets, w.storage.get? key = some text → Preset.readAll? text = some presets →
        (presets.map (·.id)).Nodup) ∧
      ((w.run events).storage.presets key).map (·.id) =
        ["saved_5", "saved_6", "saved_4", "saved_7"] ∧
      (((w.run events).storage.presets key).map (·.id)).Nodup ∧
      ∃ wait : Nat, wait ≤ 1 ∧ Preset.nextId ["saved_5"] 5 = Preset.idAt (5 + wait) ∧
        (Int64.ofInt (5 + wait)).toInt = 5 + wait := by
  intro key day stored draft w events
  have hkeys : ∀ i, (w.stores i).key = key := fun _ => rfl
  have htext : w.storage.get? key = some (Preset.writeAll [stored]) := by
    rw [Table.get?_insert, if_pos rfl]
  have hread := Preset.readAll?_writeAll [stored]
  have hinitial : ∀ text presets, w.storage.get? key = some text →
      Preset.readAll? text = some presets → (presets.map (·.id)).Nodup := by
    intro text presets hget hpresets
    obtain rfl := Option.some.inj (htext.symm.trans hget)
    obtain rfl := Option.some.inj (hread.symm.trans hpresets)
    exact List.nodup_singleton _
  have hholds : Holds w key [stored] := by
    refine ⟨hkeys, ?_⟩
    rw [Storage.presets, htext, Option.bind_some, hread, Option.getD_some]
  have hids : ((w.run events).storage.presets key).map (·.id) =
      ["saved_5", "saved_6", "saved_4", "saved_7"] := by
    rw [(hholds.run events).stored]
    decide +kernel
  obtain ⟨hnew, hdistinct⟩ := ids_of_shared_stores w hkeys hinitial
  obtain ⟨wait, hle, -, hnext, -, hfar⟩ := hnew [stored] 5
  have hfits : (Int64.ofInt (5 + wait)).toInt = 5 + wait :=
    hfar (by decide +kernel) (by decide +kernel) wait le_rfl
  exact ⟨hkeys, hinitial, hids, hdistinct events, wait, hle, hnext, hfits⟩

end SharedStores

end FilterBar

import Hmux.Home.ProviderStore

namespace Hmux.Home

/-!
# Provider edits change only the key

What the edits of `ProviderStore` leave in a file, for every content, every outcome of the system
calls and every reader of JSON that reads back what is written (`ReadsSettings`).

* `readExisting_ok`, `save_spec` — a file is read as it is, and replaced or left as it was;
* `editJson_ok`, `editJson_again`, `editJson_error` — an edit of a JSON file, from what its
  rewriting does to an object;
* `putObject` — an object is taken out and put back;
* `claudeSettings_frame`, `geminiSettings_frame`, `claudeState_spec` — an edit changes the edited
  path only.

The three rewritings of JSON files have the same shape: an object is taken out of another one,
changed and put back.  What they change is a path of names, and the frame lemma says that every
path apart from it leads where it led.
-/

open Lib Lib.Json

/-! ### Files

What the system calls of one read and one write leave, whatever they return. -/

section

variable {calls : ReadCalls} {limit max : ℕ} {p : Place} {raw : List UInt8}
  {content : Option (List UInt8)}

/-- **A file is read as it is**, and no call that fails makes it another one. -/
theorem readExisting_ok (h : readExisting calls limit p = .ok content) :
    content = p.content ∧ readExisting .fine limit p = .ok content := by
  cases p with
  | missing =>
    cases h
    exact ⟨rfl, rfl⟩
  | refused entry => cases h
  | trusted entry =>
    unfold readExisting at h ⊢
    dsimp only at h ⊢
    split at h
    · cases h
    · cases entry with
      | none =>
        cases h
        exact ⟨rfl, rfl⟩
      | some e =>
        dsimp only at h ⊢
        split at h
        · cases h
        · next hordinary =>
          split at h
          · cases h
          · split at h
            · cases h
            · split at h
              · cases h
              · cases h
                rw [if_neg Bool.noConfusion, if_neg hordinary]
                exact ⟨rfl, rfl⟩

/-- A read that succeeds returns the content of the place. -/
theorem read_fine (h : readExisting calls limit p = .ok content) :
    read .fine limit p = content := by
  unfold read
  rw [(readExisting_ok h).2]

/-- **A write** replaces the file or leaves it as it was. -/
theorem save_spec (calls : SaveCalls) (raw : List UInt8) (max : ℕ) (p : Place) :
    let saved := save calls raw max p
    (saved.2 = .ok () → readExisting .fine max saved.1 = .ok (some raw)) ∧
      (saved.1.content = p.content ∨ saved.1.content = some raw) ∧
      ∀ e, saved.2 = .error e → e ≠ writeFailed ∨ calls.write = .beforeCommit →
        saved.1.entry = p.entry := by
  have hcreated : p.created.entry = p.entry := by cases p <;> rfl
  have hcontent : p.created.content = p.content := congrArg (Option.map Entry.content) hcreated
  dsimp only
  unfold save
  -- the length and the directory are checked and the old file is read before anything is written
  split
  · exact ⟨nofun, .inl rfl, fun _ _ _ => rfl⟩
  · next hsize =>
    split
    · exact ⟨nofun, .inl rfl, fun _ _ _ => rfl⟩
    · dsimp only
      cases hread : readExisting calls.previous max p.created with
      | error e => exact ⟨nofun, .inl hcontent, fun _ _ _ => hcreated⟩
      | ok previous =>
        dsimp only
        split
        · exact ⟨nofun, .inl hcontent, fun _ _ _ => hcreated⟩
        · -- the directory is there and trusted, or the file could not have been read
          have htrusted : ∃ entry, p.created = .trusted entry := by
            cases p with
            | missing => exact ⟨none, rfl⟩
            | refused entry => cases hread
            | trusted entry => exact ⟨entry, rfl⟩
          obtain ⟨entry, htrusted⟩ := htrusted
          have hentry : p.entry = entry := by
            rw [← hcreated, htrusted]
            rfl
          rw [htrusted]
          cases hwrite : calls.write with
          | done =>
            refine ⟨fun _ => ?_, .inr rfl, nofun⟩
            show readExisting .fine max (.trusted (some ⟨raw, true⟩)) = _
            unfold readExisting
            dsimp only
            rw [if_neg Bool.noConfusion, if_neg (not_or.mpr ⟨Bool.noConfusion, hsize⟩)]
            rfl
          | beforeCommit =>
            refine ⟨nofun, .inl ?_, fun _ _ _ => hentry.symm⟩
            show entry.map Entry.content = p.entry.map Entry.content
            rw [hentry]
          | afterCommit =>
            refine ⟨nofun, .inr rfl, ?_⟩
            rintro e he (hne | hbefore)
            · cases he
              exact absurd rfl hne
            · cases hbefore

end

/-! ### JSON files

An edit that succeeded has read an object and written what its rewriting made of it, or found
nothing to write. -/

/-- What is relied on of the JSON library, for settings: nothing is no value, objects come in the
    order of their keys and are nested at most 127 deep, and what is written is read back. -/
structure ReadsSettings (S : Serde) : Prop where
  empty : S.fromSlice [] = none
  ordered : ∀ {raw j}, S.fromSlice raw = some j → j.ordered 127 = true
  pretty : ∀ {j}, j.ordered 127 = true → j.integral = true →
    S.fromSlice (Json.pretty S.format 0 j ++ [10]) = some j

/-- All numbers of the file are integers. -/
def IntegersOnly (S : Serde) (p : Place) : Prop :=
  ∀ raw j, p.content = some raw → S.fromSlice raw = some j → j.integral = true

/-- An object as it is read: in the order of its keys, not too deep, with integers only. -/
structure Settings (depth : ℕ) (m : Map) : Prop where
  ordered : (Json.obj m).ordered (depth + 1) = true
  integral : (Json.obj m).integral = true

/-- A rewriting keeps objects readable. -/
def Rewrite.Keeps (f : Rewrite) : Prop :=
  ∀ {m m'}, Settings 126 m → f m = .ok (some m') → Settings 126 m'

section

variable {S : Serde} {calls : ReadCalls} {limit : ℕ} {p : Place} {m m' : Map} {f : Rewrite}

/-- An empty object is one of settings. -/
theorem settings_nil (depth : ℕ) : Settings depth [] :=
  ⟨ordered_obj.mpr ⟨List.Pairwise.nil, nofun⟩, integral_obj.mpr nofun⟩

/-- So does a file that is read as an object. -/
theorem jsonObject_fine (h : jsonObject S calls limit p = .ok m) :
    jsonObject S .fine limit p = .ok m := by
  unfold jsonObject at h ⊢
  cases hread : readExisting calls limit p with
  | error e =>
    rw [hread] at h
    cases h
  | ok raw =>
    rw [hread] at h
    rw [(readExisting_ok hread).2]
    exact h

/-- An object that was read is one that can be read back. -/
theorem jsonObject_settings (hS : ReadsSettings S) (hints : IntegersOnly S p)
    (h : jsonObject S calls limit p = .ok m) : Settings 126 m := by
  unfold jsonObject at h
  cases hread : readExisting calls limit p with
  | error e =>
    rw [hread] at h
    cases h
  | ok raw =>
    rw [hread] at h
    obtain ⟨hcontent, -⟩ := readExisting_ok hread
    dsimp only at h
    split at h
    · cases h
      exact settings_nil _
    · next hne =>
      cases raw with
      | none => exact absurd rfl hne
      | some raw =>
        rw [Option.getD_some] at h
        cases hjson : S.fromSlice raw with
        | none =>
          rw [hjson] at h
          cases h
        | some j =>
          have hints := hints raw j hcontent.symm hjson
          have hordered := hS.ordered hjson
          rw [hjson] at h
          cases j <;> cases h
          exact ⟨hordered, hints⟩

/-- What was written is read. -/
theorem jsonObject_written (hS : ReadsSettings S) (hm : Settings 126 m)
    (h : readExisting .fine limit p = .ok (some (settingsText S m))) :
    jsonObject S .fine limit p = .ok m := by
  have hne : settingsText S m ≠ [] := List.append_ne_nil_of_right_ne_nil _ (List.cons_ne_nil _ _)
  have hread : S.fromSlice (settingsText S m) = some (.obj m) := hS.pretty hm.ordered hm.integral
  unfold jsonObject
  rw [h]
  dsimp only
  rw [Option.getD_some, if_neg hne, hread]

/-- **A successful edit** of a JSON file: the object before it, the object after it. -/
theorem editJson_ok (hS : ReadsSettings S) (hf : f.Keeps) (hints : IntegersOnly S p)
    {calls : EditCalls} (h : (editJson S limit f calls p).2 = .ok ()) :
    let p' := (editJson S limit f calls p).1
    ∃ m m', Settings 126 m ∧ jsonObject S .fine limit p = .ok m ∧
      jsonObject S .fine limit p' = .ok m' ∧
      ((f m = .ok none ∧ p' = p ∧ m' = m) ∨
        (f m = .ok (some m') ∧ p'.content = some (settingsText S m'))) := by
  dsimp only
  unfold editJson at h ⊢
  cases hread : jsonObject S calls.first limit p with
  | error e =>
    rw [hread] at h
    cases h
  | ok m =>
    have hm := jsonObject_settings hS hints hread
    rw [hread] at h
    dsimp only at h ⊢
    cases hrewrite : f m with
    | error e =>
      rw [hrewrite] at h
      cases h
    | ok next =>
      rw [hrewrite] at h
      cases next with
      | none => exact ⟨m, m, hm, jsonObject_fine hread,
          jsonObject_fine hread, .inl ⟨hrewrite, rfl, rfl⟩⟩
      | some m' =>
        have hsaved := (save_spec calls.save (settingsText S m') limit p).1 h
        exact ⟨m, m', hm, jsonObject_fine hread, jsonObject_written hS (hf hm hrewrite) hsaved,
          .inr ⟨hrewrite, (readExisting_ok hsaved).1.symm⟩⟩

/-- **The same edit again** leaves the content as it is. -/
theorem editJson_again (hS : ReadsSettings S) (hf : f.Keeps) (hints : IntegersOnly S p)
    (hagain : ∀ {m m'}, Settings 126 m → f m = .ok (some m') →
      f m' = .ok none ∨ f m' = .ok (some m'))
    {calls : EditCalls} (h : (editJson S limit f calls p).2 = .ok ()) (calls' : EditCalls) :
    let p' := (editJson S limit f calls p).1
    (editJson S limit f calls' p').1.content = p'.content := by
  obtain ⟨m, m', hm, -, hread, hcase⟩ := editJson_ok hS hf hints h
  dsimp only
  generalize (editJson S limit f calls p).1 = p' at hread hcase ⊢
  unfold editJson
  cases hsecond : jsonObject S calls'.first limit p' with
  | error e => rfl
  | ok m'' =>
    obtain rfl : m'' = m' := by
      have hfine := jsonObject_fine hsecond
      rw [hread] at hfine
      exact (Except.ok.inj hfine).symm
    dsimp only
    rcases hcase with ⟨hnone, -, rfl⟩ | ⟨hsome, hcontent⟩
    · rw [hnone]
    · rcases hagain hm hsome with hnone | hsame
      · rw [hnone]
      · rw [hsame]
        rcases (save_spec calls'.save (settingsText S m'') limit p').2.1 with hsaved | hsaved
        · exact hsaved
        · exact hsaved.trans hcontent.symm

/-- **An edit that fails** before its write leaves the file as it was. -/
theorem editJson_error {calls : EditCalls} {e : ProviderError}
    (h : (editJson S limit f calls p).2 = .error e)
    (hwrite : e ≠ writeFailed ∨ calls.save.write = .beforeCommit) :
    (editJson S limit f calls p).1.entry = p.entry := by
  unfold editJson at h ⊢
  cases hread : jsonObject S calls.first limit p with
  | error e => rfl
  | ok m =>
    rw [hread] at h
    dsimp only at h ⊢
    cases hrewrite : f m with
    | error e => rfl
    | ok next =>
      rw [hrewrite] at h
      cases next with
      | none => rfl
      | some m' => exact (save_spec calls.save (settingsText S m') limit p).2.2 e h hwrite

end

/-! ### Objects within objects

An object that is empty afterwards is not put back, so a removal leaves no empty object behind. -/

/-- An object is put where it was taken from, unless nothing is left of it. -/
def putObject (map : Map) (key : String) (child : Map) : Map :=
  if child = [] then map.remove key else (map.remove key).insert key (.obj child)

/-- A path that neither leads to the edited path nor goes on from it. -/
def Apart (edited path : List String) : Prop := ¬ edited <+: path ∧ ¬ path <+: edited

section

variable {depth : ℕ} {m child rest : Map} {key name message : String} {path edited : List String}
  {j : Json}

/-- Two paths are apart if their first keys differ or if what follows is apart. -/
theorem apart_cons : Apart (key :: edited) (name :: path) ↔ name ≠ key ∨ Apart edited path := by
  unfold Apart
  rw [List.cons_prefix_cons, List.cons_prefix_cons]
  constructor
  · rintro ⟨h, h'⟩
    by_cases hname : name = key
    · exact .inr ⟨fun hp => h ⟨hname.symm, hp⟩, fun hp => h' ⟨hname, hp⟩⟩
    · exact .inl hname
  · rintro (hname | ⟨h, h'⟩)
    · exact ⟨fun hp => hname hp.1.symm, fun hp => hname hp.1⟩
    · exact ⟨fun hp => h hp.2, fun hp => h' hp.2⟩

/-- A path with another first key is apart. -/
theorem apart_of_ne (h : name ≠ key) : Apart (key :: edited) (name :: path) :=
  apart_cons.mpr (.inl h)

/-- The whole value is changed by every edit. -/
theorem not_apart_nil : ¬ Apart edited [] := fun h => h.2 List.nil_prefix

/-- A path is changed by its own edit, with all that is below it. -/
theorem not_apart_self : ¬ Apart [] path := fun h => h.1 List.nil_prefix

/-- The keys of settings are in order. -/
theorem Settings.sorted (h : Settings depth m) : OrderedMap.Sorted m := (ordered_obj.mp h.ordered).1

/-- Settings stay settings with a value that is ordered and integral. -/
theorem Settings.insert (h : Settings depth m) (hordered : j.ordered depth = true)
    (hintegral : j.integral = true) : Settings depth (m.insert key j) :=
  ⟨ordered_insert h.ordered hordered, integral_insert h.integral hintegral⟩

/-- Settings stay settings with a text. -/
theorem Settings.insert_str (h : Settings depth m) (s : String) :
    Settings depth (m.insert key (.str s)) :=
  h.insert (ordered_str s) (integral_str s)

/-- Settings stay settings without one of their entries. -/
theorem Settings.remove (h : Settings depth m) : Settings depth (m.remove key) :=
  ⟨ordered_remove h.ordered, integral_remove h.integral⟩

/-- What was taken out, and what is left. -/
theorem takeObject_ok (h : takeObject m key message = .ok (child, rest)) :
    rest = m.remove key ∧ (m.get key = some (.obj child) ∨ (m.get key = none ∧ child = [])) := by
  unfold takeObject at h
  split at h
  · next hget =>
    cases h
    exact ⟨rfl, .inl hget⟩
  · cases h
  · next hget =>
    cases h
    exact ⟨rfl, .inr ⟨hget, rfl⟩⟩

/-- An object that is taken out of settings is one of settings. -/
theorem Settings.take (h : Settings (depth + 1) m)
    (htake : takeObject m key message = .ok (child, rest)) : Settings depth child := by
  rcases (takeObject_ok htake).2 with hget | ⟨-, rfl⟩
  · exact ⟨ordered_get h.ordered hget, integral_get h.integral hget⟩
  · exact settings_nil _

/-- An object of settings can be put back. -/
theorem Settings.put (h : Settings (depth + 1) m) (hchild : Settings depth child) :
    Settings (depth + 1) (putObject m key child) := by
  unfold putObject
  split
  · exact h.remove
  · exact h.remove.insert hchild.ordered hchild.integral

/-- Below the name stands what was taken out. -/
theorem member_take (h : takeObject m key message = .ok (child, rest)) :
    member (.obj m) (key :: name :: path) = member (.obj child) (name :: path) := by
  rw [member_cons]
  rcases (takeObject_ok h).2 with hget | ⟨hget, rfl⟩
  · rw [hget, Option.bind_some]
  · rw [hget, Option.bind_none, member_nil_obj]

/-- What is found after an object is put back: nothing, if it is empty. -/
theorem get_put (h : OrderedMap.Sorted m) : (putObject m key child).get name =
    if name = key then (if child = [] then none else some (.obj child)) else m.get name := by
  unfold putObject
  by_cases hchild : child = []
  · rw [if_pos hchild, if_pos hchild, get_remove]
  · rw [if_neg hchild, if_neg hchild, get_insert (sorted_remove h), get_remove]
    by_cases hname : name = key
    · rw [if_pos hname, if_pos hname]
    · rw [if_neg hname, if_neg hname, if_neg hname]

/-- **What is put in** stands below the name. -/
theorem member_put_self (h : OrderedMap.Sorted m) :
    member (.obj (putObject m key child)) (key :: name :: path) =
      member (.obj child) (name :: path) := by
  rw [member_cons, get_put h, if_pos rfl]
  by_cases hchild : child = []
  · rw [if_pos hchild, hchild, Option.bind_none, member_nil_obj]
  · rw [if_neg hchild, Option.bind_some]

/-- A path with another first key leads to the same value. -/
theorem member_put_of_ne (h : OrderedMap.Sorted m) (hname : name ≠ key) :
    member (.obj (putObject m key child)) (name :: path) = member (.obj m) (name :: path) := by
  rw [member_cons, get_put h, if_neg hname, member_cons]

/-- **Putting in changes what was changed**: paths apart from the edited one lead where they led. -/
theorem member_put_apart (h : OrderedMap.Sorted m)
    (htake : takeObject m key message = .ok (child, rest)) {child' : Map}
    (hchild : ∀ path, Apart edited path → member (.obj child') path = member (.obj child) path)
    (hpath : Apart (key :: edited) path) :
    member (.obj (putObject m key child')) path = member (.obj m) path := by
  cases path with
  | nil => exact absurd hpath not_apart_nil
  | cons name path =>
    by_cases hname : name = key
    · subst hname
      rw [apart_cons] at hpath
      have hpath := hpath.resolve_left (not_not.mpr rfl)
      cases path with
      | nil => exact absurd hpath not_apart_nil
      | cons next path => rw [member_put_self h, member_take htake, hchild _ hpath]
    · exact member_put_of_ne h hname

/-- What was put in is taken out. -/
theorem takeObject_put (h : OrderedMap.Sorted m) :
    takeObject (putObject m key child) key message =
      .ok (child, (putObject m key child).remove key) := by
  unfold takeObject
  rw [get_put h, if_pos rfl]
  by_cases hchild : child = []
  · rw [if_pos hchild, hchild]
  · rw [if_neg hchild]

/-- Writing what is there changes nothing. -/
theorem insert_same (h : OrderedMap.Sorted m) (hget : m.get key = some j) : m.insert key j = m := by
  refine map_ext (OrderedMap.insert_sorted h) h fun name => ?_
  rw [get_insert h]
  split
  · next hname => rw [hname, hget]
  · rfl

/-- What was taken out and is put back as it was. -/
theorem put_same (h : OrderedMap.Sorted m) (hchild : child ≠ [])
    (hget : m.get key = some (.obj child)) : putObject m key child = m := by
  unfold putObject
  rw [if_neg hchild]
  refine map_ext (OrderedMap.insert_sorted (sorted_remove h)) h fun name => ?_
  rw [get_insert (sorted_remove h), get_remove]
  by_cases hname : name = key
  · rw [if_pos hname, hname, hget]
  · rw [if_neg hname, if_neg hname]

/-- An entry is removed once. -/
theorem remove_remove : (m.remove key).remove key = m.remove key := by
  unfold Map.remove
  rw [List.filter_filter]
  congr 1
  funext e
  exact Bool.and_self _

/-- An object with a new entry is not empty. -/
theorem insert_ne_nil : m.insert key j ≠ [] := by
  unfold Map.insert
  cases m with
  | nil => exact List.cons_ne_nil _ _
  | cons e m =>
    rw [OrderedMap.insert]
    split
    · exact List.cons_ne_nil _ _
    · split
      · exact List.cons_ne_nil _ _
      · exact List.cons_ne_nil _ _

/-- An edit of one name of an object. -/
theorem member_insert_apart (h : OrderedMap.Sorted m) (hpath : Apart [key] path) :
    member (.obj (m.insert key j)) path = member (.obj m) path := by
  cases path with
  | nil => exact absurd hpath not_apart_nil
  | cons name path =>
    have hname : name ≠ key := (apart_cons.mp hpath).resolve_right not_apart_self
    rw [member_insert h, if_neg hname]

/-- A path that is apart survives the removal of a key. -/
theorem member_remove_apart (hpath : Apart [key] path) :
    member (.obj (m.remove key)) path = member (.obj m) path := by
  cases path with
  | nil => exact absurd hpath not_apart_nil
  | cons name path =>
    have hname : name ≠ key := (apart_cons.mp hpath).resolve_right not_apart_self
    rw [member_remove, if_neg hname]

end

/-! ### The key of Claude

One member of the `env` object. -/

section

variable {name key : String} {m m' : Map}

/-- What a successful rewriting does to the settings of Claude. -/
theorem claudeSettings_some (h : claudeSettings name key m = .ok (some m')) :
    ∃ env rest message, takeObject m "env" message = .ok (env, rest) ∧
      m' = putObject m "env"
        (if key = "" then env.remove name else env.insert name (.str key)) := by
  unfold claudeSettings at h
  split at h
  · cases h
  · next env rest htake =>
    refine ⟨env, rest, _, htake, ?_⟩
    obtain ⟨rfl, -⟩ := takeObject_ok htake
    split at h
    · cases h
    · cases h
      rfl

/-- **The key stands at its name**, or nothing after a removal. -/
theorem claudeSettings_value (hm : Settings 126 m) (h : claudeSettings name key m = .ok (some m')) :
    member (.obj m') ["env", name] = if key = "" then none else some (.str key) := by
  obtain ⟨env, rest, message, htake, rfl⟩ := claudeSettings_some h
  rw [member_put_self hm.sorted]
  split
  · rw [member_remove, if_pos rfl]
  · rw [member_insert (hm.take htake).sorted, if_pos rfl]
    rfl

/-- The edit for Claude leaves every path alone but the one of its variable. -/
theorem claudeSettings_frame (hm : Settings 126 m) (h : claudeSettings name key m = .ok (some m'))
    {path : List String} (hpath : Apart ["env", name] path) :
    member (.obj m') path = member (.obj m) path := by
  obtain ⟨env, rest, message, htake, rfl⟩ := claudeSettings_some h
  refine member_put_apart hm.sorted htake (fun path hpath => ?_) hpath
  split
  · exact member_remove_apart hpath
  · exact member_insert_apart (hm.take htake).sorted hpath

/-- What it writes are settings. -/
theorem claudeSettings_keeps : Rewrite.Keeps (claudeSettings name key) := by
  intro m m' hm h
  obtain ⟨env, rest, message, htake, rfl⟩ := claudeSettings_some h
  apply hm.put
  split
  · exact (hm.take htake).remove
  · exact (hm.take htake).insert_str key

/-- The same key again. -/
theorem claudeSettings_again (hm : Settings 126 m) (h : claudeSettings name key m = .ok (some m')) :
    claudeSettings name key m' = .ok none ∨ claudeSettings name key m' = .ok (some m') := by
  have hm' := claudeSettings_keeps hm h
  obtain ⟨env, rest, message, htake, rfl⟩ := claudeSettings_some h
  unfold claudeSettings
  rw [takeObject_put hm.sorted]
  dsimp only
  by_cases hkey : key = ""
  · left
    rw [if_pos hkey, get_remove, if_pos rfl, if_pos ⟨hkey, rfl⟩]
  · right
    have henv := hm.take htake
    rw [if_neg hkey] at hm' ⊢
    have hinsert :
      (env.insert name (.str key)).insert name (.str key) = env.insert name (.str key) :=
      insert_same (sorted_insert henv.sorted) ((get_insert henv.sorted).trans (if_pos rfl))
    have hget : (putObject m "env" (env.insert name (.str key))).get "env" =
        some (.obj (env.insert name (.str key))) := by
      rw [get_put hm.sorted, if_pos rfl, if_neg insert_ne_nil]
    rw [if_neg fun hempty => hkey hempty.1, if_neg hkey, hinsert]
    exact congrArg (fun m => Except.ok (some m)) (put_same hm'.sorted insert_ne_nil hget)

/-- Where there is nothing to remove. -/
theorem claudeSettings_none (h : claudeSettings name key m = .ok none) :
    key = "" ∧ member (.obj m) ["env", name] = none := by
  unfold claudeSettings at h
  split at h
  · cases h
  · next env rest htake =>
    split at h
    · next hempty =>
      refine ⟨hempty.1, ?_⟩
      rw [member_take htake, member_cons, Option.isNone_iff_eq_none.mp hempty.2]
      rfl
    · cases h

end

/-! ### The account type of Gemini

One member two objects below, which is only replaced when the caller allows it. -/

/-- The type that a reader of the settings finds. -/
def selectedOf (m : Map) : String :=
  ((member (.obj m) ["security", "auth", "selectedType"]).bind asStr).getD ""

section

variable {want : String} {replace : String → Bool} {m m' : Map}

/-- What is read from the file is what the edit looks at. -/
theorem geminiSelectedAuth_of_ok {S : Serde} {calls : ReadCalls} {p : Place}
    (h : jsonObject S calls settingsLimit p = .ok m) :
    geminiSelectedAuth S calls p = .ok (selectedOf m) := by
  unfold geminiSelectedAuth selectedOf
  rw [h]
  dsimp only
  rw [member_cons]
  cases m.get "security" with
  | none => rfl
  | some v =>
    rw [Option.bind_some, Option.bind_some, member]
    cases v.get "auth" with
    | none => rfl
    | some v =>
      rw [Option.bind_some, Option.bind_some, member]
      cases v.get "selectedType" <;> rfl

/-- The two objects that hold the type. -/
theorem geminiSettings_take {next : Option Map} (h : geminiSettings want replace m = .ok next) :
    ∃ security auth rest rest' message message',
      takeObject m "security" message = .ok (security, rest) ∧
      takeObject security "auth" message' = .ok (auth, rest') ∧
      selectedType auth = selectedOf m ∧
      (next = none ∧ (selectedOf m = want ∨ replace (selectedOf m) = false) ∨
        ¬ (selectedOf m = want ∨ replace (selectedOf m) = false) ∧ next = some
        (putObject m "security" (putObject security "auth" (if want = "" then
          auth.remove "selectedType" else auth.insert "selectedType" (.str want))))) := by
  unfold geminiSettings at h
  split at h
  · cases h
  · next security rest htake =>
    split at h
    · cases h
    · next auth rest' htake' =>
      have hselected : selectedType auth = selectedOf m := by
        unfold selectedType selectedOf
        rw [member_take htake, member_take htake', member_cons]
        cases auth.get "selectedType" <;> rfl
      refine ⟨security, auth, rest, rest', _, _, htake, htake', hselected, ?_⟩
      split at h
      · next hsame =>
        cases h
        rw [hselected] at hsame
        exact .inl ⟨rfl, hsame⟩
      · next hother =>
        cases h
        rw [hselected] at hother
        rw [(takeObject_ok htake).1, (takeObject_ok htake').1, remove_remove, remove_remove]
        exact .inr ⟨hother, rfl⟩

/-- **Nothing is written** when the type is there or may not be replaced. -/
theorem geminiSettings_none (h : geminiSettings want replace m = .ok none) :
    selectedOf m = want ∨ replace (selectedOf m) = false := by
  obtain ⟨_, _, _, _, _, _, _, _, _, hcase⟩ := geminiSettings_take h
  rcases hcase with ⟨-, hsame⟩ | ⟨-, hnext⟩
  · exact hsame
  · cases hnext

/-- What the edit for Gemini writes, with the objects it took apart. -/
theorem geminiSettings_some (h : geminiSettings want replace m = .ok (some m')) :
    ∃ security auth rest rest' message message',
      takeObject m "security" message = .ok (security, rest) ∧
      takeObject security "auth" message' = .ok (auth, rest') ∧
      m' = putObject m "security" (putObject security "auth" (if want = "" then
        auth.remove "selectedType" else auth.insert "selectedType" (.str want))) := by
  obtain ⟨security, auth, rest, rest', message, message', htake, htake', -,
    ⟨hnone, -⟩ | ⟨-, hnext⟩⟩ :=
    geminiSettings_take h
  · cases hnone
  · exact ⟨security, auth, rest, rest', message, message', htake, htake', Option.some.inj hnext⟩

/-- The new type is found. -/
theorem geminiSettings_value (hm : Settings 126 m)
    (h : geminiSettings want replace m = .ok (some m')) : selectedOf m' = want := by
  obtain ⟨security, auth, rest, rest', message, message', htake, htake', rfl⟩ :=
    geminiSettings_some h
  have hsecurity := hm.take htake
  unfold selectedOf
  rw [member_put_self hm.sorted, member_put_self hsecurity.sorted]
  by_cases hwant : want = ""
  · rw [if_pos hwant, member_remove, if_pos rfl, Option.bind_none, Option.getD_none, hwant]
  · rw [if_neg hwant, member_insert (hsecurity.take htake').sorted, if_pos rfl]
    rfl

/-- It leaves every path alone but that of the selected type. -/
theorem geminiSettings_frame (hm : Settings 126 m)
    (h : geminiSettings want replace m = .ok (some m')) {path : List String}
    (hpath : Apart ["security", "auth", "selectedType"] path) :
    member (.obj m') path = member (.obj m) path := by
  obtain ⟨security, auth, rest, rest', message, message', htake, htake', rfl⟩ :=
    geminiSettings_some h
  have hsecurity := hm.take htake
  refine member_put_apart hm.sorted htake (fun path hpath => ?_) hpath
  refine member_put_apart hsecurity.sorted htake' (fun path hpath => ?_) hpath
  split
  · exact member_remove_apart hpath
  · exact member_insert_apart (hsecurity.take htake').sorted hpath

/-- What it writes are settings. -/
theorem geminiSettings_keeps : Rewrite.Keeps (geminiSettings want replace) := by
  intro m m' hm h
  obtain ⟨security, auth, rest, rest', message, message', htake, htake', rfl⟩ :=
    geminiSettings_some h
  have hsecurity := hm.take htake
  apply hm.put
  apply hsecurity.put
  split
  · exact (hsecurity.take htake').remove
  · exact (hsecurity.take htake').insert_str want

/-- The same type again. -/
theorem geminiSettings_again (hm : Settings 126 m)
    (h : geminiSettings want replace m = .ok (some m')) :
    geminiSettings want replace m' = .ok none ∨ geminiSettings want replace m' = .ok (some m') := by
  left
  have hvalue := geminiSettings_value hm h
  obtain ⟨security, auth, rest, rest', message, message', htake, htake', rfl⟩ :=
    geminiSettings_some h
  have hsecurity := hm.take htake
  generalize hauth : (if want = "" then auth.remove "selectedType"
    else auth.insert "selectedType" (.str want)) = auth' at hvalue ⊢
  have hselected : selectedType auth' = want := by
    unfold selectedOf at hvalue
    rw [member_put_self hm.sorted, member_put_self hsecurity.sorted, member_cons] at hvalue
    rw [← hvalue]
    unfold selectedType
    cases auth'.get "selectedType" <;> rfl
  unfold geminiSettings
  rw [takeObject_put hm.sorted]
  dsimp only
  rw [takeObject_put hsecurity.sorted]
  dsimp only
  rw [if_pos (.inl hselected)]

end

/-! ### The state of Claude

Three edits of one object, of which each may find that nothing is to be done. -/

/-- The keys that were approved. -/
def approvedOf (m : Map) : List Json :=
  match member (.obj m) ["customApiKeyResponses", "approved"] with
  | some (.arr approved) => approved
  | _ => []

/-- The key is among them. -/
def approves (key : String) (approved : List Json) : Bool :=
  approved.any fun j => j.asStr = some (keySuffix key)

/-- The approved keys, with this one. -/
def approvedWith (key : String) (approved : List Json) : List Json :=
  if approves key approved then approved else approved ++ [.str (keySuffix key)]

/-- The version that is recorded where it was not. -/
def versionWith (version : Option String) (before : Option Json) : Option Json :=
  if before.any (fun j => j.asStr.isSome) then before else (version.map Json.str).or before

section

variable {key : String} {version : Option String} {m m' : Map} {s t : Map × Bool}

/-- A path of one key is a lookup. -/
theorem member_singleton (m : Map) (name : String) : member (.obj m) [name] = m.get name := by
  rw [member_cons]
  cases m.get name <;> rfl

/-- The first edit of the message: it sets one flag, and says whether it had to. -/
theorem completeOnboarding_spec (hm : Settings 126 m) :
    Settings 126 (completeOnboarding m).1 ∧
      member (.obj (completeOnboarding m).1) ["hasCompletedOnboarding"] = some (.bool true) ∧
      (∀ path, Apart ["hasCompletedOnboarding"] path →
        member (.obj (completeOnboarding m).1) path = member (.obj m) path) ∧
      ((completeOnboarding m).2 = false → (completeOnboarding m).1 = m) := by
  unfold completeOnboarding
  split
  · refine ⟨hm.insert (ordered_bool _) (integral_bool _), ?_, fun path hpath =>
      member_insert_apart hm.sorted hpath, Bool.noConfusion⟩
    rw [member_insert hm.sorted, if_pos rfl]
    rfl
  · next hdone =>
    refine ⟨hm, ?_, fun _ _ => rfl, fun _ => rfl⟩
    rw [ne_eq, not_not] at hdone
    rw [member_singleton]
    obtain ⟨j, hget, hj⟩ := Option.bind_eq_some_iff.mp hdone
    rw [hget]
    cases j <;> cases hj
    rfl

/-- The second edit sets the version, if one is given and none is there. -/
theorem recordVersion_spec (hm : Settings 126 s.1) :
    Settings 126 (recordVersion version s).1 ∧
      member (.obj (recordVersion version s).1) ["lastOnboardingVersion"] =
        versionWith version (member (.obj s.1) ["lastOnboardingVersion"]) ∧
      (∀ path, Apart ["lastOnboardingVersion"] path →
        member (.obj (recordVersion version s).1) path = member (.obj s.1) path) ∧
      ((recordVersion version s).2 = false → recordVersion version s = s) := by
  have hget := member_singleton s.1 "lastOnboardingVersion"
  unfold recordVersion
  rw [hget]
  split
  · next hknown =>
    refine ⟨hm, ?_, fun _ _ => rfl, fun _ => rfl⟩
    rw [hget]
    exact (if_pos hknown).symm
  · next hunknown =>
    have hwith : versionWith version (s.1.get "lastOnboardingVersion") =
        (version.map Json.str).or (s.1.get "lastOnboardingVersion") := if_neg hunknown
    rw [hwith]
    cases version with
    | none => exact ⟨hm, hget, fun _ _ => rfl, fun _ => rfl⟩
    | some version =>
      refine ⟨hm.insert_str version, ?_, fun path hpath => member_insert_apart hm.sorted hpath,
        Bool.noConfusion⟩
      show member (.obj (s.1.insert "lastOnboardingVersion" (.str version))) _ = _
      rw [member_insert hm.sorted, if_pos rfl]
      rfl

/-- What a successful approval does. -/
theorem approveKey_ok (hkey : key ≠ "") (h : approveKey key s = .ok t) :
    ∃ responses rest message,
      takeObject s.1 "customApiKeyResponses" message = .ok (responses, rest) ∧
      (responses.get "approved" = some (.arr (approvedOf s.1)) ∨
        (responses.get "approved" = none ∧ approvedOf s.1 = [])) ∧
      t.1 = putObject s.1 "customApiKeyResponses" ((responses.remove "approved").insert "approved"
        (.arr (approvedWith key (approvedOf s.1)))) ∧
      t.2 = (s.2 || !approves key (approvedOf s.1)) := by
  unfold approveKey at h
  rw [if_neg hkey] at h
  dsimp only at h
  split at h
  · cases h
  · next responses rest htake =>
    have hmember : member (.obj s.1) ["customApiKeyResponses", "approved"] =
        responses.get "approved" := by
      rw [member_take htake, member_singleton]
    have hput : ∀ child : Map, child ≠ [] → rest.insert "customApiKeyResponses" (.obj child) =
        putObject s.1 "customApiKeyResponses" child := by
      intro child hchild
      unfold putObject
      rw [if_neg hchild, (takeObject_ok htake).1]
    refine ⟨responses, rest, _, htake, ?_⟩
    unfold approvedOf
    rw [hmember]
    split at h
    · next approved hget =>
      cases h
      rw [hget]
      exact ⟨.inl rfl, hput _ insert_ne_nil, rfl⟩
    · cases h
    · next hget =>
      cases h
      rw [hget]
      exact ⟨.inr ⟨rfl, rfl⟩, hput _ insert_ne_nil, rfl⟩

/-- The third edit enters the end of the key among those that were approved. -/
theorem approveKey_spec (hm : Settings 126 s.1) (h : approveKey key s = .ok t) :
    Settings 126 t.1 ∧
      (key ≠ "" → member (.obj t.1) ["customApiKeyResponses", "approved"] =
        some (.arr (approvedWith key (approvedOf s.1)))) ∧
      (∀ path, (key ≠ "" → Apart ["customApiKeyResponses", "approved"] path) →
        member (.obj t.1) path = member (.obj s.1) path) ∧
      (t.2 = false → s.2 = false ∧ (key ≠ "" → approves key (approvedOf s.1) = true)) := by
  -- without a key nothing is touched
  by_cases hkey : key = ""
  · unfold approveKey at h
    rw [if_pos hkey] at h
    cases h
    exact ⟨hm, fun hne => absurd hkey hne, fun _ _ => rfl, fun ht =>
      ⟨ht, fun hne => absurd hkey hne⟩⟩
  · obtain ⟨responses, rest, message, htake, hget, hfst, hsnd⟩ := approveKey_ok hkey h
    have hresponses := hm.take htake
    have hremove : Settings 125 (responses.remove "approved") := hresponses.remove
    -- the list of approved keys stays well formed when a text is put at its end
    have harr : (Json.arr (approvedWith key (approvedOf s.1))).ordered 125 = true ∧
        (Json.arr (approvedWith key (approvedOf s.1))).integral = true := by
      have hold : (Json.arr (approvedOf s.1)).ordered 125 = true ∧
          (Json.arr (approvedOf s.1)).integral = true := by
        rcases hget with hget | ⟨-, hnil⟩
        · exact ⟨ordered_get hresponses.ordered hget, integral_get hresponses.integral hget⟩
        · rw [hnil]
          exact ⟨ordered_arr.mpr nofun, integral_arr.mpr nofun⟩
      rw [ordered_arr, integral_arr] at hold ⊢
      unfold approvedWith
      split
      · exact hold
      · refine ⟨fun j hj => ?_, fun j hj => ?_⟩
        · rcases List.mem_append.mp hj with hj | hj
          · exact hold.1 j hj
          · rw [List.mem_singleton.mp hj]
            exact ordered_str _
        · rcases List.mem_append.mp hj with hj | hj
          · exact hold.2 j hj
          · rw [List.mem_singleton.mp hj]
            exact integral_str _
    rw [hfst, hsnd]
    refine ⟨hm.put (hremove.insert harr.1 harr.2), fun _ => ?_, fun path hpath => ?_, fun ht => ?_⟩
    · rw [member_put_self hm.sorted, member_insert hremove.sorted, if_pos rfl]
      rfl
    -- any other member of the settings is read as before
    · refine member_put_apart hm.sorted htake (fun path hpath => ?_) (hpath hkey)
      rw [member_insert_apart hremove.sorted hpath, member_remove_apart hpath]
    · rw [Bool.or_eq_false_iff, Bool.not_eq_false'] at ht
      exact ⟨ht.1, fun _ => ht.2⟩

/-- What `mark_claude_ready` leaves. -/
structure Ready (key : String) (version : Option String) (m m' : Map) : Prop where
  completed : member (.obj m') ["hasCompletedOnboarding"] = some (.bool true)
  version : member (.obj m') ["lastOnboardingVersion"] =
    versionWith version (member (.obj m) ["lastOnboardingVersion"])
  approved : key ≠ "" → member (.obj m') ["customApiKeyResponses", "approved"] =
    some (.arr (approvedWith key (approvedOf m)))

/-- The paths that `mark_claude_ready` edits; without a key nothing is approved. -/
def readyPaths (key : String) : List (List String) :=
  [["hasCompletedOnboarding"], ["lastOnboardingVersion"]] ++
    if key = "" then [] else [["customApiKeyResponses", "approved"]]

/-- Only one path tells what was approved. -/
theorem approvedOf_congr (h : member (.obj m') ["customApiKeyResponses", "approved"] =
    member (.obj m) ["customApiKeyResponses", "approved"]) : approvedOf m' = approvedOf m := by
  unfold approvedOf
  rw [h]

/-- A key that is approved stands in a list that is there. -/
theorem member_of_approves (h : approves key (approvedOf m) = true) :
    member (.obj m) ["customApiKeyResponses", "approved"] = some (.arr (approvedOf m)) := by
  unfold approvedOf at h ⊢
  split at h
  · next heq => rw [heq]
  · cases h

/-- **What is written**, and what may be left unwritten. -/
theorem claudeState_spec (hm : Settings 126 m) {next : Option Map}
    (h : claudeState key version m = .ok next) :
    (next = none → Ready key version m m) ∧
      ∀ m', next = some m' → Settings 126 m' ∧ Ready key version m m' ∧
        ∀ path, (∀ edited ∈ readyPaths key, Apart edited path) →
          member (.obj m') path = member (.obj m) path := by
  unfold claudeState at h
  obtain ⟨hm₁, hcompleted₁, hframe₁, hsame₁⟩ := completeOnboarding_spec hm
  obtain ⟨hm₂, hversion₂, hframe₂, hsame₂⟩ :=
    @recordVersion_spec version (completeOnboarding m) hm₁
  cases hkeyed : approveKey key (recordVersion version (completeOnboarding m)) with
  | error e =>
    rw [hkeyed] at h
    cases h
  | ok t =>
    rw [hkeyed] at h
    obtain ⟨hm₃, happroved₃, hframe₃, hsame₃⟩ := approveKey_spec hm₂ hkeyed
    have happroved : approvedOf (recordVersion version (completeOnboarding m)).1 = approvedOf m :=
      approvedOf_congr ((hframe₂ _ (apart_of_ne (by decide))).trans
        (hframe₁ _ (apart_of_ne (by decide))))
    rw [happroved] at happroved₃ hsame₃
    rw [hframe₁ _ (apart_of_ne (by decide))] at hversion₂
    have hready : Ready key version m t.1 :=
      ⟨(hframe₃ _ fun _ => apart_of_ne (by decide)).trans
        ((hframe₂ _ (apart_of_ne (by decide))).trans hcompleted₁),
          (hframe₃ _ fun _ => apart_of_ne (by decide)).trans hversion₂, happroved₃⟩
    cases hchanged : t.2 with
    | false =>
      dsimp only at h
      rw [hchanged, if_neg Bool.noConfusion] at h
      cases h
      refine ⟨fun _ => ?_, nofun⟩
      -- nothing was changed, so the state is the one before
      obtain ⟨hsecond, hknown⟩ := hsame₃ hchanged
      have hsecond' := hsame₂ hsecond
      rw [hsecond'] at hsecond hversion₂
      rw [hsame₁ hsecond] at hversion₂ hcompleted₁
      refine ⟨hcompleted₁, hversion₂, fun hkey => ?_⟩
      rw [member_of_approves (hknown hkey), approvedWith, if_pos (hknown hkey)]
    | true =>
      dsimp only at h
      rw [hchanged, if_pos rfl] at h
      cases h
      refine ⟨nofun, fun m' hm' => ?_⟩
      cases hm'
      refine ⟨hm₃, hready, fun path hpath => ?_⟩
      rw [hframe₃ path fun hkey => hpath _ (by simp [readyPaths, hkey]),
        hframe₂ path (hpath _ (by simp [readyPaths])),
        hframe₁ path (hpath _ (by simp [readyPaths]))]

/-- The first edit has nothing to do where the flag is set. -/
theorem completeOnboarding_ready
    (h : member (.obj m) ["hasCompletedOnboarding"] = some (.bool true)) :
    completeOnboarding m = (m, false) := by
  rw [member_singleton] at h
  unfold completeOnboarding
  rw [h]
  rfl

/-- The second edit has nothing to do where the version is as it would be set. -/
theorem recordVersion_ready {before : Option Json}
    (h : member (.obj s.1) ["lastOnboardingVersion"] = versionWith version before) :
    recordVersion version s = s := by
  rw [member_singleton] at h
  unfold recordVersion
  rw [h]
  unfold versionWith
  by_cases hknown : before.any (fun j => j.asStr.isSome) = true
  · rw [if_pos hknown, if_pos hknown]
  · rw [if_neg hknown]
    cases version with
    | none =>
      split
      · rfl
      · rfl
    | some version => exact if_pos rfl

/-- A key that was entered is approved. -/
theorem approves_approvedWith (key : String) (approved : List Json) :
    approves key (approvedWith key approved) = true := by
  unfold approvedWith
  split
  · next hknown => exact hknown
  · unfold approves
    rw [List.any_append, List.any_cons]
    simp [asStr]

/-- The third edit has nothing to do where the key was entered. -/
theorem approveKey_ready {approved : List Json}
    (h : key ≠ "" → member (.obj s.1) ["customApiKeyResponses", "approved"] =
      some (.arr (approvedWith key approved))) : ∃ t, approveKey key s = .ok t ∧ t.2 = s.2 := by
  unfold approveKey
  by_cases hkey : key = ""
  · rw [if_pos hkey]
    exact ⟨s, rfl, rfl⟩
  · have h := h hkey
    have happroves := approves_approvedWith key approved
    generalize approvedWith key approved = known at h happroves
    unfold approves at happroves
    rw [if_neg hkey]
    dsimp only
    rw [member_cons] at h
    obtain ⟨j, hget, hj⟩ := Option.bind_eq_some_iff.mp h
    cases j with
    | obj responses =>
      rw [member_singleton] at hj
      unfold takeObject
      rw [hget]
      dsimp only
      rw [hj]
      dsimp only
      rw [happroves]
      exact ⟨_, rfl, by simp⟩
    | _ => cases hj

/-- The same call again. -/
theorem claudeState_again (hm : Settings 126 m) (h : claudeState key version m = .ok (some m')) :
    claudeState key version m' = .ok none ∨ claudeState key version m' = .ok (some m') := by
  left
  obtain ⟨-, hready, -⟩ := (claudeState_spec hm h).2 m' rfl
  have hcompleted := completeOnboarding_ready hready.completed
  have hversion : recordVersion version (m', false) = (m', false) :=
    recordVersion_ready hready.version
  have happroved : ∃ t, approveKey key (m', false) = .ok t ∧ t.2 = false :=
    approveKey_ready hready.approved
  obtain ⟨t, ht, hfalse⟩ := happroved
  unfold claudeState
  rw [hcompleted, hversion, ht]
  dsimp only
  rw [hfalse, if_neg Bool.noConfusion]

end

end Hmux.Home

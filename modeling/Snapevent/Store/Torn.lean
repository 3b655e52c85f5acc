import Snapevent.Store.Jsonl

/-!
# A torn day file

A run that crashes leaves a day file that ends at an arbitrary byte, and later runs reopen the file
and append to it.  Neither the writer nor the reader looks at where the file ends: what a later run
appends first goes on with a broken line, and is lost with it.
-/

namespace Snapevent

namespace Directory

variable {path : String} {dir : Directory}

theorem contents_openFile (path path' : String) (dir : Directory) :
    (dir.openFile path).contents path' = dir.contents path' := by
  by_cases hmem : path ∈ dir.map (·.1)
  · rw [openFile_of_mem hmem]
  · rw [openFile_of_notMem hmem, contents, contents, List.lookup_append]
    cases hlookup : dir.lookup path' with
    | some bs => rfl
    | none =>
      rw [Option.none_or, List.lookup_cons]
      split <;> rfl

theorem mem_openFile (path : String) (dir : Directory) : path ∈ (dir.openFile path).map (·.1) := by
  by_cases hmem : path ∈ dir.map (·.1)
  · rwa [openFile_of_mem hmem]
  · rw [openFile_of_notMem hmem]
    simp

theorem lookup_map_ite (g : List UInt8 → List UInt8) (dir : Directory) :
    (dir.map fun f => if f.1 = path then (f.1, g f.2) else f).lookup path =
      (dir.lookup path).map g := by
  induction dir with
  | nil => rfl
  | cons f dir ih =>
    rw [List.map_cons]
    by_cases hf : f.1 = path
    · subst hf
      rw [if_pos rfl, List.lookup_cons_self]
      obtain ⟨name, bs⟩ := f
      rw [List.lookup_cons_self]
      rfl
    · have hne : (path == f.1) = false := by simpa using Ne.symm hf
      rw [if_neg hf, List.lookup_cons, List.lookup_cons, hne]
      exact ih

theorem contents_write (h : path ∈ dir.map (·.1)) (bs : List UInt8) :
    (dir.write path bs).contents path = dir.contents path ++ bs := by
  have hsome : (dir.lookup path).isSome := by
    rw [List.lookup_isSome_iff]
    obtain ⟨f, hf, rfl⟩ := List.mem_map.1 h
    exact ⟨f, hf, by simp⟩
  obtain ⟨old, hold⟩ := Option.isSome_iff_exists.1 hsome
  rw [contents, contents, write, lookup_map_ite (· ++ bs), hold]
  rfl

theorem contents_write_of_ne {path' : String} (h : path' ≠ path) (bs : List UInt8)
    (dir : Directory) : (dir.write path bs).contents path' = dir.contents path' := by
  rw [contents, contents, write]
  congr 1
  induction dir with
  | nil => rfl
  | cons f dir ih =>
    have hname : (if f.1 = path then (f.1, f.2 ++ bs) else f).1 = f.1 := by
      split_ifs <;> rfl
    obtain ⟨name, old⟩ := f
    rw [List.map_cons, List.lookup_cons, List.lookup_cons, hname, ih]
    by_cases hpath : path' = name
    · rw [if_neg fun heq => h (hpath.trans heq)]
    · rw [show (path' == name) = false by simpa using hpath]

theorem names_write (path : String) (bs : List UInt8) (dir : Directory) :
    (dir.write path bs).map (·.1) = dir.map (·.1) := by
  rw [write, List.map_map]
  apply List.map_congr_left
  intro f _
  show (if f.1 = path then (f.1, f.2 ++ bs) else f).1 = f.1
  split_ifs <;> rfl

theorem mem_write (h : path ∈ dir.map (·.1)) (bs : List UInt8) :
    path ∈ (dir.write path bs).map (·.1) := by
  rwa [names_write]

theorem contents_truncate (path : String) (n : ℕ) (dir : Directory) :
    (dir.truncate path n).contents path = (dir.contents path).take n := by
  rw [contents, contents, truncate, lookup_map_ite (·.take n)]
  cases dir.lookup path with
  | none => simp
  | some bs => rfl

end Directory

/-! ## Runs over one day file -/

/-- The files after a run of a new writer that appends to the file of a day. -/
def appendRun (serde : Serde) (day : Date) (dir : Directory) (envs : List Envelope) : Directory :=
  (envs.foldl (fun s env => s.1.append day (serde.lineBytes env) s.2) (JsonlWriter.new, dir)).2

section Run

variable (serde : Serde) (day : Date)

/-- One append adds one line, whether the writer has the file open or opens it. -/
theorem contents_append {w : JsonlWriter} {dir : Directory} (env : Envelope)
    (hw : w = .new ∨ (w = ⟨some day, some (dayFile day)⟩ ∧ dayFile day ∈ dir.map (·.1))) :
    (w.append day (serde.lineBytes env) dir).1 = ⟨some day, some (dayFile day)⟩ ∧
      dayFile day ∈ (w.append day (serde.lineBytes env) dir).2.map (·.1) ∧
      (w.append day (serde.lineBytes env) dir).2.contents (dayFile day) =
        dir.contents (dayFile day) ++ serde.fileBytes [env] := by
  rw [serde.fileBytes_singleton]
  rcases hw with rfl | ⟨rfl, hmem⟩
  · refine ⟨rfl, Directory.mem_write (Directory.mem_openFile _ _) _, ?_⟩
    show ((dir.openFile (dayFile day)).write (dayFile day) _).contents (dayFile day) = _
    rw [Directory.contents_write (Directory.mem_openFile _ _), Directory.contents_openFile]
  · rw [JsonlWriter.append, JsonlWriter.rotateIfNeeded, if_pos ⟨rfl, rfl⟩]
    exact ⟨rfl, Directory.mem_write hmem _, Directory.contents_write hmem _⟩

theorem contents_appendRun (dir : Directory) (envs : List Envelope) :
    (appendRun serde day dir envs).contents (dayFile day) =
      dir.contents (dayFile day) ++ serde.fileBytes envs := by
  suffices ∀ w : JsonlWriter, (w = .new ∨
      (w = ⟨some day, some (dayFile day)⟩ ∧ dayFile day ∈ dir.map (·.1))) →
      (envs.foldl (fun s env => s.1.append day (serde.lineBytes env) s.2) (w, dir)).2.contents
        (dayFile day) = dir.contents (dayFile day) ++ serde.fileBytes envs from
    this .new (Or.inl rfl)
  induction envs generalizing dir with
  | nil => exact fun w _ => (List.append_nil _).symm
  | cons env envs ih =>
    intro w hw
    obtain ⟨hw', hmem, hcontents⟩ := contents_append serde day env hw
    have hcons : serde.fileBytes (env :: envs) = serde.fileBytes [env] ++ serde.fileBytes envs :=
      serde.fileBytes_append [env] envs
    rw [List.foldl_cons, ih _ _ (Or.inr ⟨hw', hmem⟩), hcontents, hcons, List.append_assoc]

theorem contents_appendRuns (dir : Directory) (runs : List (List Envelope)) :
    (runs.foldl (appendRun serde day) dir).contents (dayFile day) =
      dir.contents (dayFile day) ++ serde.fileBytes runs.flatten := by
  induction runs generalizing dir with
  | nil => exact (List.append_nil _).symm
  | cons run runs ih =>
    rw [List.foldl_cons, ih, contents_appendRun, List.flatten_cons, serde.fileBytes_append,
      List.append_assoc]

/-- The directory of a run over a new file whose last bytes were lost. -/
def tornDirectory (envs : List Envelope) (n : ℕ) : Directory :=
  (appendRun serde day [] envs).truncate (dayFile day) n

/-- The file of the day after the crash. -/
def tornFile (envs : List Envelope) (n : ℕ) : List UInt8 :=
  (tornDirectory serde day envs n).contents (dayFile day)

/-- What is read from the file after later runs have appended to it. -/
def readTorn (envs : List Envelope) (n : ℕ) (runs : List (List Envelope)) : List ReadItem :=
  readEnvelopes (serde.fileLines
    ((runs.foldl (appendRun serde day) (tornDirectory serde day envs n)).contents (dayFile day)))

theorem tornFile_eq (envs : List Envelope) (n : ℕ) :
    tornFile serde day envs n = (serde.fileBytes envs).take n := by
  rw [tornFile, tornDirectory, Directory.contents_truncate, contents_appendRun]
  rfl

theorem readTorn_eq (envs : List Envelope) (n : ℕ) (runs : List (List Envelope)) :
    readTorn serde day envs n runs = readEnvelopes (serde.fileLines
      (tornFile serde day envs n ++ serde.fileBytes runs.flatten)) := by
  rw [readTorn, contents_appendRuns, tornFile]

end Run

/-! ## What is read -/

/-- Only the torn record is lost: the reader gets the first envelopes of the first run, at most one
error, and all envelopes of the later runs.  The first envelopes are at least those whose lines were
whole in the first `n` bytes. -/
def LosesAtMostTorn (serde : Serde) (envs : List Envelope) (n : ℕ) (later : List Envelope)
    (items : List ReadItem) : Prop :=
  ∃ (k : ℕ) (errors : List ReadError),
    items = (envs.take k).map .ok ++ errors.map .error ++ later.map .ok ∧ errors.length ≤ 1 ∧
    ∀ j ≤ envs.length, (serde.fileBytes (envs.take j)).length ≤ n → j ≤ k

section Torn

variable {serde : Serde} {envs later : List Envelope}

/-- A torn file holds whole lines and a part of the next one. -/
theorem exists_part (serde : Serde) (envs : List Envelope) (n : ℕ) :
    ∃ k part, (serde.fileBytes envs).take n = serde.fileBytes (envs.take k) ++ part ∧
      (part ≠ [] → ∃ env, envs[k]? = some env ∧ part <+: serde.lineBytes env) ∧
      k ≤ envs.length := by
  obtain ⟨k, part, htake, hpart⟩ := Lines.take_join (envs.map serde.lineBytes) n
  have hline (hne : part ≠ []) : ∃ env, envs[k]? = some env ∧ part <+: serde.lineBytes env := by
    obtain ⟨line, hline, hprefix⟩ := hpart hne
    rw [List.getElem?_map, Option.map_eq_some_iff] at hline
    obtain ⟨env, henv, rfl⟩ := hline
    exact ⟨env, henv, hprefix⟩
  have hwhole : (serde.fileBytes envs).take n = serde.fileBytes (envs.take k) ++ part := by
    rw [Serde.fileBytes, htake, ← List.map_take]
    rfl
  by_cases hk : k ≤ envs.length
  · exact ⟨k, part, hwhole, hline, hk⟩
  · refine ⟨envs.length, part, ?_, fun hne => ?_, le_rfl⟩
    · rw [List.take_of_length_le (show envs.length ≤ k by omega)] at hwhole
      rwa [List.take_length]
    · obtain ⟨env, henv, -⟩ := hline hne
      exact absurd (List.getElem?_eq_some_iff.1 henv).1 (by omega)

/-- The whole lines of a torn file are all that fit. -/
theorem whole_le {n k : ℕ} {part : List UInt8}
    (htake : (serde.fileBytes envs).take n = serde.fileBytes (envs.take k) ++ part)
    (hpart : part ≠ [] → ∃ env, envs[k]? = some env ∧ part <+: serde.lineBytes env) {j : ℕ}
    (hj : j ≤ envs.length) (hn : (serde.fileBytes (envs.take j)).length ≤ n) : j ≤ k := by
  by_contra hlt
  have hk : k < envs.length := by omega
  have hsucc : envs.take (k + 1) = envs.take k ++ [envs[k]] := by
    rw [List.take_add_one, List.getElem?_eq_getElem hk]
    rfl
  have hline : (serde.fileBytes (envs.take (k + 1))).length =
      (serde.fileBytes (envs.take k)).length + (serde.lineBytes envs[k]).length + 1 := by
    rw [hsucc, serde.fileBytes_append, serde.fileBytes_singleton, List.length_append,
      List.length_append, List.length_singleton]
    omega
  have hmono (a b : List Envelope) :
      (serde.fileBytes a).length ≤ (serde.fileBytes (a ++ b)).length := by
    rw [serde.fileBytes_append, List.length_append]
    omega
  have hnext : (serde.fileBytes (envs.take (k + 1))).length ≤
      (serde.fileBytes (envs.take j)).length := by
    have hsplit := List.take_append_drop (k + 1) (envs.take j)
    rw [List.take_take, Nat.min_eq_left (by omega)] at hsplit
    rw [← hsplit]
    exact hmono _ _
  have htotal : (serde.fileBytes (envs.take j)).length ≤ (serde.fileBytes envs).length := by
    conv_rhs => rw [← List.take_append_drop j envs]
    exact hmono _ _
  have hshort : part.length ≤ (serde.lineBytes envs[k]).length := by
    by_cases hne : part = []
    · rw [hne]
      exact Nat.zero_le _
    · obtain ⟨env, henv, hprefix⟩ := hpart hne
      rw [List.getElem?_eq_getElem hk, Option.some.injEq] at henv
      rw [henv]
      exact hprefix.length_le
  have hlength := congrArg List.length htake
  rw [List.length_take, List.length_append] at hlength
  omega

theorem ended_append_iff {part : List UInt8} {env : Envelope} (h : part <+: serde.lineBytes env)
    (whole : List Envelope) : Lines.Ended 10 (serde.fileBytes whole ++ part) ↔ part = [] := by
  constructor
  · intro hended
    by_contra hne
    have hlast : (serde.fileBytes whole ++ part).getLast? = part.getLast? :=
      List.getLast?_append_of_ne_nil _ hne
    rcases hended with hnil | hnl
    · exact hne (List.append_eq_nil_iff.1 hnil).2
    · rw [hlast] at hnl
      exact (serde.plain_lineBytes env).nl_notMem (h.subset (List.mem_of_getLast? hnl))
  · rintro rfl
    rw [List.append_nil]
    exact Lines.ended_join _

/-- Behind whole lines a file goes on as it would by itself. -/
theorem readEnvelopes_whole (h : ∀ env ∈ envs, serde.Writable env) (rest : List UInt8) :
    readEnvelopes (serde.fileLines (serde.fileBytes envs ++ rest)) =
      serde.storedItems 1 envs ++ readFrom (1 + envs.length) (serde.fileLines rest) := by
  rw [serde.fileLines_append, readEnvelopes_eq, readFrom_append, readFrom_written h]
  simp

theorem fileLines_line {line : List UInt8} (h : Lines.Plain 10 13 line) (rest : List UInt8) :
    serde.fileLines (line ++ 10 :: rest) = serde.readRaw line :: serde.fileLines rest := by
  rw [Serde.fileLines, Lines.split_line h]
  rfl

theorem plain_merged {part : List UInt8} {env : Envelope} (hpart : part <+: serde.lineBytes env)
    (first : Envelope) : Lines.Plain 10 13 (part ++ serde.lineBytes first) where
  nl_notMem := by
    rw [List.mem_append, not_or]
    exact ⟨fun hmem => (serde.plain_lineBytes env).nl_notMem (hpart.subset hmem),
      (serde.plain_lineBytes first).nl_notMem⟩
  last := by
    rw [List.getLast?_append_of_ne_nil _ (serde.lineBytes_ne_nil first)]
    exact (serde.plain_lineBytes first).last

/-- Later runs behind a broken line lose their first record. -/
theorem readEnvelopes_broken (h : ∀ env ∈ envs, serde.Writable env) {part : List UInt8}
    {env first : Envelope} (hpart : part <+: serde.lineBytes env) (hne : part ≠ [])
    (hlater : ∀ e ∈ later, serde.Writable e) :
    ∃ e, readEnvelopes (serde.fileLines (serde.fileBytes envs ++ part ++
        serde.fileBytes (first :: later))) =
      serde.storedItems 1 envs ++ .error e :: serde.storedItems (1 + envs.length + 1) later := by
  have hbytes : serde.fileBytes envs ++ part ++ serde.fileBytes (first :: later) =
      serde.fileBytes envs ++ ((part ++ serde.lineBytes first) ++ 10 :: serde.fileBytes later) := by
    rw [show first :: later = [first] ++ later from rfl, serde.fileBytes_append,
      serde.fileBytes_singleton]
    simp only [List.append_assoc, List.cons_append, List.nil_append]
  obtain ⟨e, he⟩ : ∃ e, readLine (1 + envs.length)
      (serde.readRaw (part ++ serde.lineBytes first)) = some (.error e) :=
    Serde.readLine_merged (List.prefix_refl _) (serde.lineBytes_ne_nil first)
      (Serde.head_of_part hpart hne) _
  refine ⟨e, ?_⟩
  rw [hbytes, readEnvelopes_whole h, fileLines_line (plain_merged hpart first), readFrom_cons, he,
    serde.fileLines_fileBytes, readFrom_written hlater]
  rfl

/-- A broken line that nothing follows is at most one item. -/
theorem readEnvelopes_part (h : ∀ env ∈ envs, serde.Writable env) {k : ℕ} {part : List UInt8}
    {env : Envelope} (henv : envs[k]? = some env) (hpart : part <+: serde.lineBytes env)
    (hne : part ≠ []) :
    ∃ item : ReadItem, ((∃ e, item = .error e) ∨ item = .ok env) ∧
      readEnvelopes (serde.fileLines (serde.fileBytes (envs.take k) ++ part)) =
        serde.storedItems 1 (envs.take k) ++ [item] := by
  have hnl : (10 : UInt8) ∉ part := fun hmem =>
    (serde.plain_lineBytes env).nl_notMem (hpart.subset hmem)
  have hlines : serde.fileLines part = [serde.readRaw part] := by
    rw [Serde.fileLines, Lines.split_part hnl hne]
    rfl
  rw [readEnvelopes_whole fun e he => h e (List.mem_of_mem_take he), hlines, readFrom_cons,
    readFrom_nil, List.append_nil]
  rcases Serde.readLine_part hpart hne (h env (List.mem_of_getElem? henv))
      (1 + (envs.take k).length) with ⟨e, he⟩ | ⟨-, hok⟩
  · exact ⟨.error e, .inl ⟨e, rfl⟩, by rw [he]; rfl⟩
  · exact ⟨.ok env, .inr rfl, by rw [hok]; rfl⟩

/-- When only the torn record is lost, the whole lines of the file come back as their envelopes. -/
theorem LosesAtMostTorn.whole {n k : ℕ} {rest : List ReadItem}
    (h : LosesAtMostTorn serde envs n later (serde.storedItems 1 (envs.take k) ++ rest))
    (hk : k ≤ envs.length) (hn : (serde.fileBytes (envs.take k)).length ≤ n) :
    ∀ env ∈ envs.take k, env.kind.Shallow := by
  obtain ⟨k', errors, heq, -, hwhole⟩ := h
  have hle : k ≤ k' := hwhole k hk hn
  have hk' : (envs.take k).length = k := by rw [List.length_take, min_eq_left hk]
  have hsplit : envs.take k' = envs.take k ++ (envs.take k').drop k := by
    conv_lhs => rw [← List.take_append_drop k (envs.take k'), List.take_take, min_eq_left hle]
  rw [hsplit, List.map_append, List.append_assoc, List.append_assoc] at heq
  exact Serde.storedItems_eq_iff.1
    (List.append_inj heq (by rw [Serde.length_storedItems, List.length_map])).1

theorem LosesAtMostTorn.tail {n : ℕ} {before after : List ReadItem}
    (h : LosesAtMostTorn serde envs n later (before ++ after))
    (hlength : after.length = later.length) : after = later.map .ok := by
  obtain ⟨k, errors, heq, -, -⟩ := h
  exact (List.append_inj' heq (by rw [hlength, List.length_map])).2

theorem not_losesAtMostTorn (n : ℕ) (before : List ReadItem) (e : ReadError) (first : Envelope)
    {rest : List Envelope} {after : List ReadItem} (hlength : after.length = rest.length) :
    ¬ LosesAtMostTorn serde envs n (first :: rest) (before ++ .error e :: after) := by
  intro h
  have htail := h.tail (by rw [List.length_cons, List.length_cons, hlength])
  cases (List.cons.inj htail).1

/-- Over a file that was cut off anywhere and any number of later runs, only the torn record is lost
exactly when the file ends at the end of a line or no later run appends to it, and no payload among
the whole lines and in the later runs is nested too deep for its line to be read. -/
theorem torn_file_loses_one_iff (serde : Serde) (day : Date) (envs : List Envelope) (n : ℕ)
    (runs : List (List Envelope)) (henvs : ∀ env ∈ envs, serde.Writable env)
    (hruns : ∀ run ∈ runs, ∀ env ∈ run, serde.Writable env) :
    LosesAtMostTorn serde envs n runs.flatten (readTorn serde day envs n runs) ↔
      (Lines.Ended 10 (tornFile serde day envs n) ∨ runs.flatten = []) ∧
      (∀ j ≤ envs.length, (serde.fileBytes (envs.take j)).length ≤ n →
        ∀ env ∈ envs.take j, env.kind.Shallow) ∧
      ∀ run ∈ runs, ∀ env ∈ run, env.kind.Shallow := by
  have hlater : ∀ env ∈ runs.flatten, serde.Writable env := by
    intro env henv
    obtain ⟨run, hrun, hmem⟩ := List.mem_flatten.1 henv
    exact hruns run hrun env hmem
  have hflatten : (∀ run ∈ runs, ∀ env ∈ run, env.kind.Shallow) ↔
      ∀ env ∈ runs.flatten, env.kind.Shallow := by
    simp only [List.mem_flatten, forall_exists_index, and_imp]
    exact ⟨fun h env run hrun hmem => h run hrun env hmem,
      fun h run hrun env hmem => h env run hrun hmem⟩
  obtain ⟨k, part, htake, hpart, hk⟩ := exists_part serde envs n
  have hwhole : ∀ j ≤ envs.length, (serde.fileBytes (envs.take j)).length ≤ n → j ≤ k :=
    fun j => whole_le htake hpart
  have hfits : (serde.fileBytes (envs.take k)).length ≤ n := by
    have hlength := congrArg List.length htake
    rw [List.length_take, List.length_append] at hlength
    omega
  have hshallow : (∀ j ≤ envs.length, (serde.fileBytes (envs.take j)).length ≤ n →
      ∀ env ∈ envs.take j, env.kind.Shallow) ↔ ∀ env ∈ envs.take k, env.kind.Shallow := by
    refine ⟨fun h => h k hk hfits, fun h j hj hn env henv => h env ?_⟩
    exact List.take_subset_take_left envs (hwhole j hj hn) henv
  have htaken : ∀ env ∈ envs.take k, serde.Writable env :=
    fun env henv => henvs env (List.mem_of_mem_take henv)
  rw [readTorn_eq, tornFile_eq, htake, hshallow, hflatten]
  by_cases hne : part = []
  · subst hne
    rw [List.append_nil, ← serde.fileBytes_append,
      readEnvelopes_written (List.forall_mem_append.2 ⟨htaken, hlater⟩),
      Serde.storedItems_append]
    constructor
    · intro h
      refine ⟨Or.inl (Lines.ended_join _), h.whole hk hfits, ?_⟩
      exact Serde.storedItems_eq_iff.1 (h.tail (Serde.length_storedItems _ _ _))
    · rintro ⟨-, hfirst, hlast⟩
      refine ⟨k, [], ?_, by simp, hwhole⟩
      rw [Serde.storedItems_eq_iff.2 hfirst, Serde.storedItems_eq_iff.2 hlast]
      simp
  · obtain ⟨env, henv, hprefix⟩ := hpart hne
    rw [ended_append_iff hprefix, or_iff_right hne]
    cases hflat : runs.flatten with
    | nil =>
      rw [show serde.fileBytes [] = [] from rfl, List.append_nil]
      obtain ⟨item, hitem, hread⟩ := readEnvelopes_part henvs henv hprefix hne
      rw [hread]
      constructor
      · exact fun h => ⟨rfl, h.whole hk hfits, by simp⟩
      · rintro ⟨-, hfirst, -⟩
        rw [Serde.storedItems_eq_iff.2 hfirst]
        rcases hitem with ⟨e, rfl⟩ | rfl
        · exact ⟨k, [e], by simp, by simp, hwhole⟩
        · refine ⟨k + 1, [], ?_, by simp, fun j hj hn => Nat.le_succ_of_le (hwhole j hj hn)⟩
          rw [List.take_add_one, henv]
          simp
    | cons first rest =>
      rw [hflat, List.forall_mem_cons] at hlater
      obtain ⟨e, he⟩ := readEnvelopes_broken htaken hprefix hne hlater.2
      rw [he]
      refine iff_of_false (not_losesAtMostTorn n _ e first (Serde.length_storedItems _ _ _)) ?_
      rintro ⟨hnil, -⟩
      cases hnil

end Torn

/-- A trade of the price `micro`. -/
def Envelope.tradeSample (micro : UInt32) : Envelope :=
  .new .sample none none (.trade
    { ticker := ⟨"K"⟩, ts := .sample, price := ⟨micro⟩, count := ⟨100⟩, takerSide := .yes
      takerBookSide := none, tradeId := none })

theorem Envelope.writable_tradeSample (serde : Serde) (micro : UInt32) :
    serde.Writable (tradeSample micro) := ⟨trivial, rfl⟩

/-- A crash after the whole first line; the later run loses nothing. -/
theorem torn_file_loses_one_sample :
    LosesAtMostTorn .sample [.tradeSample 1, .tradeSample 2]
      (Serde.sample.fileBytes [.tradeSample 1]).length [.tradeSample 3]
      (readTorn .sample ⟨2026, 5, 30, by decide⟩ [.tradeSample 1, .tradeSample 2]
        (Serde.sample.fileBytes [.tradeSample 1]).length [[.tradeSample 3]]) := by
  have hshallow (micro : UInt32) : (Envelope.tradeSample micro).kind.Shallow := trivial
  apply (torn_file_loses_one_iff .sample ⟨2026, 5, 30, by decide⟩ _ _ [[.tradeSample 3]]
    (by simp [Envelope.writable_tradeSample]) (by simp [Envelope.writable_tradeSample])).2
  refine ⟨Or.inl ?_, fun j _ _ env henv => ?_, by simp [hshallow]⟩
  · rw [tornFile_eq, show [Envelope.tradeSample 1, .tradeSample 2] =
      [.tradeSample 1] ++ [.tradeSample 2] from rfl, Serde.fileBytes_append, List.take_left]
    exact Lines.ended_join _
  · have hmem := List.mem_of_mem_take henv
    simp only [List.mem_cons, List.not_mem_nil, or_false] at hmem
    rcases hmem with rfl | rfl <;> exact hshallow _

/-- One byte of the first line has reached the disk; the only record of the later run is lost with
it. -/
theorem torn_byte_loses_next_run :
    ¬ LosesAtMostTorn .sample [.tradeSample 1] 1 [.tradeSample 2]
      (readTorn .sample ⟨2026, 5, 30, by decide⟩ [.tradeSample 1] 1 [[.tradeSample 2]]) := by
  obtain ⟨text, htext⟩ := Serde.lineText_eq .sample (.tradeSample 1)
  have hbytes : Serde.sample.lineBytes (.tradeSample 1) = 123 :: Utf8.bytes text := by
    rw [Serde.lineBytes, htext, Utf8.bytes_cons]
    rfl
  have hpart : [123] <+: Serde.sample.lineBytes (.tradeSample 1) := ⟨_, hbytes.symm⟩
  have hfile : tornFile .sample ⟨2026, 5, 30, by decide⟩ [.tradeSample 1] 1 =
      Serde.sample.fileBytes [] ++ [123] := by
    rw [tornFile_eq, Serde.fileBytes_singleton, hbytes]
    rfl
  have hbroken : ∃ e, readEnvelopes (Serde.sample.fileLines (Serde.sample.fileBytes [] ++ [123] ++
      Serde.sample.fileBytes [.tradeSample 2])) = [] ++ .error e :: [] :=
    readEnvelopes_broken (by simp) hpart (by simp) (by simp)
  obtain ⟨e, he⟩ := hbroken
  rw [readTorn_eq, hfile, List.flatten_singleton, he]
  exact not_losesAtMostTorn 1 [] e (.tradeSample 2) rfl

end Snapevent

import CvdBench.Properties.RemovalExact
import CvdBench.Worker.Prebuild

/-!
What a read-only scan finds.
-/

set_option autoImplicit false

namespace CvdBench.Worker

open Foundation Spec

def pathsOf (t : FileTree EntryName) (root : List Char) (base : List EntryName)
    (n : Node EntryName) (places : List (List EntryName)) : List (List Char) :=
  (places.filter fun l => t.get? (base ++ l) = some n).map (joinNames root)

theorem pathsOf_concat (t : FileTree EntryName) (root : List Char) (base : List EntryName)
    (n : Node EntryName) (places : List (List EntryName)) (l : List EntryName) :
    pathsOf t root base n (places ++ [l]) = pathsOf t root base n places ++
      if t.get? (base ++ l) = some n then [joinNames root l] else [] := by
  unfold pathsOf
  rw [List.filter_append, List.map_append, List.filter_singleton]
  congr 1
  by_cases h : t.get? (base ++ l) = some n
  · simp [h]
  · simp [h]

/-- The tour that the variables of the scan show. -/
structure LayoutScan.Shows (t : FileTree EntryName) (root : List Char) (base : List EntryName)
    (limit : Nat) (s : LayoutScan) (a : Tour EntryName) : Prop where
  directories : s.directories = root :: pathsOf t root base .dir a.seen
  files : s.files = pathsOf t root base .file a.seen
  stack : s.stack = a.stack.map (joinNames root)
  listing : s.listing = a.listing.map fun at_ => (joinNames root at_.1, at_.2)
  scanned : s.scannedEntries = min a.seen.length u64Max
  limit : 0 < limit → a.seen.length ≤ limit ∧
    (a.seen.length = limit → a.stack = [] ∧ a.listing = none)

section

variable {order : List Char → HashOrder EntryName} {t : FileTree EntryName} {root : List Char}
  {base : List EntryName} {limit : Nat} {s : LayoutScan} {a : Tour EntryName}

theorem LayoutScan.shows_new (t : FileTree EntryName) (root : List Char) (base : List EntryName)
    (limit : Nat) : (LayoutScan.new root).Shows t root base limit Tour.start where
  directories := rfl
  files := rfl
  stack := rfl
  listing := rfl
  scanned := rfl
  limit := fun hlimit => ⟨Nat.zero_le _, fun heq => absurd heq hlimit.ne⟩

theorem LayoutScan.Shows.below (h : s.Shows t root base limit a) (hlisting : a.listing ≠ none)
    (hpos : 0 < limit) : a.seen.length < limit := by
  obtain ⟨hle, heq⟩ := h.limit hpos
  exact lt_of_le_of_ne hle fun hfull => hlisting (heq hfull).2

theorem LayoutScan.Shows.directories_concat (h : s.Shows t root base limit a)
    {d : List EntryName} {c : EntryName} {n : Node EntryName}
    (hn : t.get? (base ++ (d ++ [c])) = some n) :
    (if n = .dir then s.directories ++ [joinPath (joinNames root d) c.chars]
      else s.directories) = root :: pathsOf t root base .dir (a.seen ++ [d ++ [c]]) := by
  rw [pathsOf_concat, hn, joinNames_concat, h.directories]
  by_cases hkind : n = .dir
  · simp [hkind]
  · simp [hkind]

theorem LayoutScan.Shows.files_concat (h : s.Shows t root base limit a)
    {d : List EntryName} {c : EntryName} {n : Node EntryName}
    (hn : t.get? (base ++ (d ++ [c])) = some n) :
    (if n = .file then s.files ++ [joinPath (joinNames root d) c.chars]
      else s.files) = pathsOf t root base .file (a.seen ++ [d ++ [c]]) := by
  rw [pathsOf_concat, hn, joinNames_concat, h.files]
  by_cases hkind : n = .file
  · simp [hkind]
  · simp [hkind]

theorem LayoutScan.Shows.scanned_succ (h : s.Shows t root base limit a) :
    saturatingAddU64 s.scannedEntries 1 = min (a.seen.length + 1) u64Max := by
  rw [h.scanned, saturatingAddU64]
  omega

theorem LayoutScan.Shows.entry (hbase : Opens t root base) (hlimit : limit ≤ u32Max)
    (h : s.Shows t root base limit a) (ha : a.Fair t base) {d : List EntryName} {c : EntryName}
    {names : List EntryName} (hlisting : a.listing = some (d, c :: names)) :
    ∃ s' a', s.entry t limit (joinNames root d) c names = .ok s' ∧ a.Move t base a' ∧
      s'.Shows t root base limit a' ∧ a'.seen.length = a.seen.length + 1 ∧
      (limit = 0 → a'.listing ≠ none) := by
  obtain ⟨seen, stack, listing⟩ := a
  subst hlisting
  obtain ⟨hdir, hnames⟩ := ha.listing d (c :: names) rfl
  obtain ⟨n, hn⟩ := hnames c List.mem_cons_self
  have hmeta := hbase.metadata hdir hn
  have hscanned := h.scanned_succ
  have hdirs := h.directories_concat hn
  have hfiles := h.files_concat hn
  have hlt : 0 < limit → seen.length < limit := h.below (by simp)
  have hreached : (limit > 0 ∧ min (seen.length + 1) u64Max ≥ limit) ↔
      0 < limit ∧ seen.length + 1 = limit := by
    refine and_congr_right fun hpos => ?_
    have hbelow := hlt hpos
    unfold u64Max
    unfold u32Max at hlimit
    omega
  by_cases hstop : 0 < limit ∧ seen.length + 1 = limit
  · refine ⟨⟨root :: pathsOf t root base .dir (seen ++ [d ++ [c]]),
        pathsOf t root base .file (seen ++ [d ++ [c]]), [], min (seen.length + 1) u64Max, none⟩,
      ⟨seen ++ [d ++ [c]], [], none⟩, ?_, .stops hn, ⟨rfl, rfl, rfl, rfl, ?_, ?_⟩,
      by simp, fun hzero => absurd hzero hstop.1.ne'⟩
    · unfold LayoutScan.entry
      simp only [hmeta, hscanned]
      rw [if_pos (hreached.mpr hstop), hdirs, hfiles]
    · simp
    · intro _
      rw [List.length_append, List.length_singleton]
      exact ⟨hstop.2.le, fun _ => ⟨rfl, rfl⟩⟩
  · have hgoes : s.entry t limit (joinNames root d) c names =
        .ok ⟨root :: pathsOf t root base .dir (seen ++ [d ++ [c]]),
          pathsOf t root base .file (seen ++ [d ++ [c]]),
          if n = .dir then joinPath (joinNames root d) c.chars :: s.stack else s.stack,
          min (seen.length + 1) u64Max, some (joinNames root d, names)⟩ := by
      unfold LayoutScan.entry
      simp only [hmeta, hscanned]
      rw [if_neg (fun hc => hstop (hreached.mp hc)), hdirs, hfiles]
    have hlim : ∀ p : Prop, 0 < limit → (seen ++ [d ++ [c]]).length ≤ limit ∧
        ((seen ++ [d ++ [c]]).length = limit → p) := by
      intro p hpos
      have hbelow := hlt hpos
      have hnot : seen.length + 1 ≠ limit := fun hfull => hstop ⟨hpos, hfull⟩
      rw [List.length_append, List.length_singleton]
      exact ⟨by omega, fun hfull => absurd hfull hnot⟩
    have hscan : min (seen.length + 1) u64Max = min (seen ++ [d ++ [c]]).length u64Max := by
      simp
    by_cases hkind : n = .dir
    · subst hkind
      refine ⟨_, _, hgoes, .enters hn, ⟨rfl, rfl, ?_, rfl, hscan, hlim _⟩, by simp, by simp⟩
      rw [if_pos rfl, h.stack, List.map_cons, joinNames_concat]
    · refine ⟨_, _, hgoes, .passes hn hkind, ⟨rfl, rfl, ?_, rfl, hscan, hlim _⟩, by simp,
        by simp⟩
      rw [if_neg hkind, h.stack]

theorem LayoutScan.Shows.turn (hbase : Opens t root base) (hlimit : limit ≤ u32Max)
    (h : s.Shows t root base limit a) (ha : a.Fair t base) :
    (s.turn order t limit = .error (.ok ()) ∧ s.looks = 0 ∧ a.stack = [] ∧ a.listing = none) ∨
      ∃ s' a', s.turn order t limit = .ok s' ∧ a.Move t base a' ∧ s'.Shows t root base limit a' ∧
        a'.seen.length = a.seen.length + s.looks ∧
        (limit = 0 → ∀ d c names, a.listing = some (d, c :: names) → a'.listing ≠ none) := by
  obtain ⟨seen, stack, listing⟩ := a
  have hlisting := h.listing
  cases listing with
  | some at_ =>
    obtain ⟨d, names⟩ := at_
    cases names with
    | nil =>
      refine .inr ⟨{ s with listing := none }, ⟨seen, stack, none⟩, ?_, .closes,
        ⟨h.directories, h.files, h.stack, rfl, h.scanned, ?_⟩, ?_, ?_⟩
      · simp only [LayoutScan.turn, hlisting, Option.map_some]
      · intro hpos
        obtain ⟨hle, heq⟩ := h.limit hpos
        exact ⟨hle, fun hfull => ⟨(heq hfull).1, rfl⟩⟩
      · simp only [LayoutScan.looks, hlisting, Option.map_some]
        rfl
      · intro _ d c names heq
        cases heq
    | cons c names =>
      obtain ⟨s', a', hentry, hmove, hshows, hseen, hgoes⟩ := h.entry hbase hlimit ha rfl
      refine .inr ⟨s', a', ?_, hmove, hshows, ?_, fun hzero _ _ _ _ => hgoes hzero⟩
      · simp only [LayoutScan.turn, hlisting, Option.map_some, hentry]
        rfl
      · simp only [LayoutScan.looks, hlisting, Option.map_some]
        exact hseen
  | none =>
    cases stack with
    | nil =>
      refine .inl ⟨?_, ?_, rfl, rfl⟩
      · simp only [LayoutScan.turn, hlisting, h.stack, Option.map_none, List.map_nil]
      · simp only [LayoutScan.looks, hlisting, Option.map_none]
    | cons d stack =>
      have hdir := ha.stack d List.mem_cons_self
      let names := (order (joinNames root d)).iter (t.children (base ++ d))
      refine .inr ⟨⟨s.directories, s.files, stack.map (joinNames root), s.scannedEntries,
        some (joinNames root d, names)⟩, ⟨seen, stack, some (d, names)⟩, ?_,
        .opens ((order _).nodup_iter _) ?_,
        ⟨h.directories, h.files, rfl, rfl, h.scanned, ?_⟩, ?_, ?_⟩
      · simp only [LayoutScan.turn, hlisting, h.stack, Option.map_none, List.map_cons,
          hbase.read _ hdir, names]
      · intro c
        rw [(order _).mem_iter, FileTree.mem_children]
      · intro hpos
        obtain ⟨hle, heq⟩ := h.limit hpos
        exact ⟨hle, fun hfull => nomatch (heq hfull).1⟩
      · simp only [LayoutScan.looks, hlisting, Option.map_none]
        rfl
      · intro _ d c names heq
        cases heq

theorem LayoutScan.examined_add (order : List Char → HashOrder EntryName)
    (hturn : s.turn order t limit = .error (.ok ())) (fuel : Nat) :
    s.examined order t limit fuel ≤ s.looks := by
  cases fuel with
  | zero => exact Nat.zero_le _
  | succ fuel =>
    rw [LayoutScan.examined, hturn]
    exact le_rfl

theorem LayoutScan.Shows.run (order : List Char → HashOrder EntryName) (hbase : Opens t root base)
    (hlimit : limit ≤ u32Max) (h : s.Shows t root base limit a) (ha : a.Fair t base) :
    ∃ s' a', (∃ n, ∀ fuel, n ≤ fuel → s.loop order t limit fuel = some (.ok s')) ∧
      s'.Shows t root base limit a' ∧ a'.Fair t base ∧ a'.stack = [] ∧ a'.listing = none ∧
      (limit = 0 → a.Complete t base → a'.Complete t base) ∧
      ∀ fuel, a.seen.length + s.examined order t limit fuel ≤ a'.seen.length := by
  induction hm : a.remaining t using Nat.strong_induction_on generalizing s a with
  | _ m ih =>
    subst hm
    have hturns := @LayoutScan.Shows.turn order
    rcases hturns hbase hlimit h ha with
      ⟨hturn, hlooks, hstack, hlisting⟩ | ⟨s₁, a₁, hturn, hmove, hshows, hseen, hgoes⟩
    · refine ⟨s, a, ⟨1, fun fuel hfuel => ?_⟩, h, ha, hstack, hlisting, fun _ hc => hc,
        fun fuel => ?_⟩
      · obtain ⟨m, rfl⟩ := Nat.exists_eq_add_of_le' hfuel
        rw [LayoutScan.loop, hturn]
      · have hnone := LayoutScan.examined_add order hturn fuel
        omega
    · obtain ⟨s', a', ⟨n, hloop⟩, hshows', hfair', hstack', hlisting', hcomplete, hexamined⟩ :=
        ih _ (hmove.remaining_lt ha) hshows (hmove.fair ha) rfl
      refine ⟨s', a', ⟨n + 1, fun fuel hfuel => ?_⟩, hshows', hfair', hstack', hlisting',
        fun hzero hc => hcomplete hzero (hmove.complete (hgoes hzero) hc), fun fuel => ?_⟩
      · obtain ⟨m, rfl⟩ := Nat.exists_eq_add_of_le' hfuel
        rw [← Nat.add_assoc, LayoutScan.loop, hturn]
        exact hloop (m + n) (Nat.le_add_left ..)
      · cases fuel with
        | zero =>
          have hbelow := hexamined 0
          simp only [LayoutScan.examined] at hbelow ⊢
          omega
        | succ fuel =>
          have hbelow := hexamined fuel
          rw [LayoutScan.examined, hturn]
          simp only
          omega

end

/-- What the lists of a scan are. -/
structure Finds (t : FileTree EntryName) (root : List Char) (base : List EntryName)
    (limit : Nat) (directories files : List (List Char)) : Prop where
  root_mem : root ∈ directories
  directories_nodup : (directories.map pathComps).Nodup
  files_nodup : (files.map pathComps).Nodup
  directories_below : ∀ path ∈ directories, LiesBelow t root base .dir path
  files_below : ∀ path ∈ files, LiesBelow t root base .file path
  all : limit = 0 → (∀ path, LiesBelow t root base .dir path → path ∈ directories) ∧
    ∀ path, LiesBelow t root base .file path → path ∈ files
  count : 0 < limit → directories.length + files.length ≤ limit + 1

section

variable {t : FileTree EntryName} {root : List Char} {base : List EntryName} {limit : Nat}

theorem mem_pathsOf {n : Node EntryName} {places : List (List EntryName)} {path : List Char} :
    path ∈ pathsOf t root base n places ↔
      ∃ l ∈ places, t.get? (base ++ l) = some n ∧ path = joinNames root l := by
  unfold pathsOf
  rw [List.mem_map]
  constructor
  · rintro ⟨l, hl, rfl⟩
    obtain ⟨hmem, hn⟩ := List.mem_filter.mp hl
    exact ⟨l, hmem, of_decide_eq_true hn, rfl⟩
  · rintro ⟨l, hmem, hn, rfl⟩
    exact ⟨l, List.mem_filter.mpr ⟨hmem, decide_eq_true hn⟩, rfl⟩

theorem pathsOf_nodup (hroot : root ≠ []) (n : Node EntryName) {places : List (List EntryName)}
    (h : places.Nodup) : ((pathsOf t root base n places).map pathComps).Nodup := by
  unfold pathsOf
  rw [List.map_map]
  exact (h.filter _).map fun l l' heq => pathComps_joinNames_inj hroot heq

theorem pathsOf_length (t : FileTree EntryName) (root : List Char) (base : List EntryName)
    {n n' : Node EntryName} (hne : n ≠ n') (places : List (List EntryName)) :
    (pathsOf t root base n places).length + (pathsOf t root base n' places).length ≤
      places.length := by
  induction places with
  | nil => simp [pathsOf]
  | cons l places ih =>
    simp only [pathsOf, List.length_map] at ih ⊢
    rw [List.filter_cons, List.filter_cons, List.length_cons]
    by_cases hn : t.get? (base ++ l) = some n
    · have hn' : ¬ t.get? (base ++ l) = some n' := by
        rw [hn, Option.some.injEq]
        exact hne
      simp only [hn, decide_true, if_true, List.length_cons]
      simp only [Option.some.injEq, hne, decide_false, Bool.false_eq_true, if_false]
      omega
    · simp only [hn, decide_false, Bool.false_eq_true, if_false]
      split
      · rw [List.length_cons]
        omega
      · omega

theorem LayoutScan.Shows.finds {s : LayoutScan} {a : Tour EntryName} (hbase : Opens t root base)
    (h : s.Shows t root base limit a) (ha : a.Fair t base) (hstack : a.stack = [])
    (hlisting : a.listing = none) (hcomplete : limit = 0 → a.Complete t base) :
    Finds t root base limit s.directories s.files where
  root_mem := by
    rw [h.directories]
    exact List.mem_cons_self
  directories_nodup := by
    rw [h.directories, List.map_cons, List.nodup_cons]
    refine ⟨fun hmem => ?_, pathsOf_nodup hbase.nonempty _ ha.seen_nodup⟩
    obtain ⟨path, hpath, heq⟩ := List.mem_map.mp hmem
    obtain ⟨l, hl, _, rfl⟩ := mem_pathsOf.mp hpath
    rw [← joinNames_nil root] at heq
    exact ha.seen_ne_nil hl (pathComps_joinNames_inj hbase.nonempty heq)
  files_nodup := by
    rw [h.files]
    exact pathsOf_nodup hbase.nonempty _ ha.seen_nodup
  directories_below := by
    rw [h.directories]
    intro path hpath
    rcases List.mem_cons.mp hpath with rfl | hpath
    · exact ⟨[], rfl, by rw [List.append_nil, hbase.node]⟩
    · obtain ⟨l, _, hl, rfl⟩ := mem_pathsOf.mp hpath
      exact ⟨l, rfl, hl⟩
  files_below := by
    rw [h.files]
    intro path hpath
    obtain ⟨l, _, hl, rfl⟩ := mem_pathsOf.mp hpath
    exact ⟨l, rfl, hl⟩
  all := by
    intro hzero
    rw [h.directories, h.files]
    have hmem : ∀ l n, t.get? (base ++ l) = some n → l ≠ [] → l ∈ a.seen :=
      fun l n hl hne => (hcomplete hzero).mem_seen hstack hlisting hl hne
    constructor
    · rintro path ⟨names, rfl, hn⟩
      by_cases hnil : names = []
      · subst hnil
        exact List.mem_cons_self
      · exact List.mem_cons_of_mem _ (mem_pathsOf.mpr ⟨names, hmem _ _ hn hnil, hn, rfl⟩)
    · rintro path ⟨names, rfl, hn⟩
      have hne : names ≠ [] := by
        rintro rfl
        rw [List.append_nil, hbase.node] at hn
        cases hn
      exact mem_pathsOf.mpr ⟨names, hmem _ _ hn hne, hn, rfl⟩
  count := by
    intro hpos
    have hkinds : (Node.dir : Node EntryName) ≠ .file := by simp
    have hlen := pathsOf_length t root base hkinds a.seen
    have hle := (h.limit hpos).1
    rw [h.directories, h.files, List.length_cons]
    omega

end

def Scans (order : List Char → HashOrder EntryName) (t : FileTree EntryName)
    (mountPoint : List Char) (config : MetadataConfig) (directories files : List (List Char)) :
    Prop :=
  ∃ n s, (∀ fuel, n ≤ fuel → LayoutScan.loop order t config.readOnlyScanLimit fuel
    (.new (scanRoot mountPoint config)) = some (.ok s)) ∧
      s.directories = directories ∧ s.files = files

section

variable {order : List Char → HashOrder EntryName} {t : FileTree EntryName}
  {mountPoint : List Char} {config : MetadataConfig} {base : List EntryName}
  {directories files : List (List Char)}

theorem Scans.unique {directories' files' : List (List Char)}
    (h : Scans order t mountPoint config directories files)
    (h' : Scans order t mountPoint config directories' files') :
    directories = directories' ∧ files = files' := by
  obtain ⟨n, s, hloop, rfl, rfl⟩ := h
  obtain ⟨n', s', hloop', rfl, rfl⟩ := h'
  have heq := hloop (max n n') (le_max_left ..)
  rw [hloop' (max n n') (le_max_right ..), Option.some.injEq, Except.ok.injEq] at heq
  rw [heq]
  exact ⟨rfl, rfl⟩

theorem exists_scans (order : List Char → HashOrder EntryName)
    (hlimit : config.readOnlyScanLimit ≤ u32Max)
    (hbase : Opens t (scanRoot mountPoint config) base) :
    ∃ directories files, Scans order t mountPoint config directories files ∧
      Finds t (scanRoot mountPoint config) base config.readOnlyScanLimit directories files ∧
      (0 < config.readOnlyScanLimit → ∀ fuel, LayoutScan.examined order t
        config.readOnlyScanLimit fuel (.new (scanRoot mountPoint config)) ≤
          config.readOnlyScanLimit) := by
  obtain ⟨s, a, ⟨n, hloop⟩, hshows, hfair, hstack, hlisting, hcomplete, hexamined⟩ :=
    (LayoutScan.shows_new t _ base config.readOnlyScanLimit).run order hbase hlimit
      (Tour.fair_start hbase.node)
  refine ⟨s.directories, s.files, ⟨n, s, hloop, rfl, rfl⟩,
    hshows.finds hbase hfair hstack hlisting fun hzero => hcomplete hzero Tour.complete_start,
    fun hpos fuel => ?_⟩
  have hle := (hshows.limit hpos).1
  have hfuel := hexamined fuel
  omega

theorem Scans.finds (h : Scans order t mountPoint config directories files)
    (hlimit : config.readOnlyScanLimit ≤ u32Max)
    (hbase : Opens t (scanRoot mountPoint config) base) :
    Finds t (scanRoot mountPoint config) base config.readOnlyScanLimit directories files := by
  obtain ⟨_, _, hscans, hfinds, _⟩ := exists_scans order hlimit hbase
  obtain ⟨rfl, rfl⟩ := h.unique hscans
  exact hfinds

end

/-- With enough turns the call ends, and this is its result. -/
def Results (run : Nat → Option (Except BuildError Layout)) (res : Except BuildError Layout) :
    Prop :=
  ∃ n, ∀ fuel, n ≤ fuel → run fuel = some res

/-- What a scan with these lists does: it looks at no more entries than it may, it finds
nothing but what a scan without a limit finds, and it fails for want of files only. -/
structure ScanExact (order : List Char → HashOrder EntryName) (t : FileTree EntryName)
    (mountPoint : List Char) (config : MetadataConfig) (base : List EntryName)
    (directories files : List (List Char)) : Prop where
  scans : Scans order t mountPoint config directories files
  finds : Finds t (scanRoot mountPoint config) base config.readOnlyScanLimit directories files
  examined : 0 < config.readOnlyScanLimit → ∀ fuel, LayoutScan.examined order t
    config.readOnlyScanLimit fuel (.new (scanRoot mountPoint config)) ≤ config.readOnlyScanLimit
  part : ∀ order' directories' files',
    Scans order' t mountPoint { config with readOnlyScanLimit := 0 } directories' files' →
      directories ⊆ directories' ∧ files ⊆ files'
  inside : ∀ path ∈ directories ++ files, ∃ names,
    path = joinNames (scanRoot mountPoint config) names ∧
      find t.get? (pathComps path) = .ok (base ++ names)
  result : ∃ res, Results (fun fuel => scanExisting order fuel t mountPoint config) res ∧
    ((∃ e, res = .error e) ↔ (.stat ∈ config.ops ∨ .open ∈ config.ops) ∧ files = []) ∧
    ∀ layout, res = .ok layout → layout = ⟨scanRoot mountPoint config, directories, files,
      List.replicate config.concurrency (scanRoot mountPoint config)⟩

theorem scanResult_eq {config : MetadataConfig} {root : List Char} {s : LayoutScan}
    (hdirs : s.directories ≠ []) : scanResult config root s =
      if (.stat ∈ config.ops ∨ .open ∈ config.ops) ∧ s.files = [] then
        .error (.emptyReadOnlyLayout "files" root)
      else .ok ⟨root, s.directories, s.files, List.replicate config.concurrency root⟩ := by
  have hany : (config.ops.any fun op => op == .stat || op == .open) = true ↔
      .stat ∈ config.ops ∨ .open ∈ config.ops := by
    simp only [List.any_eq_true, Bool.or_eq_true, beq_iff_eq]
    constructor
    · rintro ⟨op, hop, rfl | rfl⟩
      · exact .inl hop
      · exact .inr hop
    · rintro (hop | hop)
      · exact ⟨_, hop, .inl rfl⟩
      · exact ⟨_, hop, .inr rfl⟩
  unfold scanResult
  rw [if_neg (by simp [hdirs])]
  refine if_congr ?_ rfl rfl
  rw [Bool.and_eq_true, hany, List.isEmpty_iff]

theorem scanExisting_exact (order : List Char → HashOrder EntryName) (t : FileTree EntryName)
    (mountPoint : List Char) (config : MetadataConfig) (base : List EntryName)
    (hlimit : config.readOnlyScanLimit ≤ u32Max)
    (hbase : Opens t (scanRoot mountPoint config) base) :
    ∃ directories files, ScanExact order t mountPoint config base directories files := by
  obtain ⟨directories, files, hscans, hfinds, hexamined⟩ := exists_scans order hlimit hbase
  refine ⟨directories, files, hscans, hfinds, hexamined, ?_, ?_, ?_⟩
  · intro order' directories' files' hscans'
    have hall := (hscans'.finds (Nat.zero_le _) hbase).all rfl
    exact ⟨fun path hpath => hall.1 path (hfinds.directories_below path hpath),
      fun path hpath => hall.2 path (hfinds.files_below path hpath)⟩
  · intro path hpath
    rcases List.mem_append.mp hpath with hpath | hpath
    · obtain ⟨names, rfl, hn⟩ := hfinds.directories_below path hpath
      exact ⟨names, rfl, hbase.found_node hn (by simp)⟩
    · obtain ⟨names, rfl, hn⟩ := hfinds.files_below path hpath
      exact ⟨names, rfl, hbase.found_node hn (by simp)⟩
  · obtain ⟨n, s, hloop, rfl, rfl⟩ := hscans
    refine ⟨scanResult config (scanRoot mountPoint config) s, ⟨n, fun fuel hfuel => ?_⟩, ?_⟩
    · unfold scanExisting
      simp only [hloop fuel hfuel]
      rfl
    · rw [scanResult_eq (List.ne_nil_of_mem hfinds.root_mem)]
      split
      · next hfails =>
        exact ⟨iff_of_true ⟨_, rfl⟩ hfails, fun layout heq => nomatch heq⟩
      · next hgood =>
        refine ⟨iff_of_false ?_ hgood, fun layout heq => ?_⟩
        · rintro ⟨e, he⟩
          cases he
        · rw [← Except.ok.inj heq]

namespace Small

def x : EntryName := ⟨['x'], by decide, by decide, by decide⟩

/-- `/m/a` holds a directory, and in it a file and a link to `/m`. -/
def stocked : FileTree EntryName :=
  ((looped.insert [m, a] x .dir).insert [m, a, x] a .file).insert [m, a, x] m
    (.link ⟨true, [.name m]⟩)

def readOnlyConfig : MetadataConfig :=
  { concurrency := 2, dir := "a", dirManifest := none, ops := [.stat, .readdir], readOnly := true
    readOnlyScanLimit := 3, depth := 0, width := 0, filesPerDir := 0, layoutConcurrency := 1
    thinkTime := none, rateLimit := none }

theorem stocked_opens : Opens stocked (scanRoot "/m".toList readOnlyConfig) [m, a] :=
  ⟨by decide, by decide, by decide⟩

end Small

theorem scanExisting_exact_small : ∃ directories files,
    ScanExact Small.byName Small.stocked "/m".toList Small.readOnlyConfig [Small.m, Small.a]
      directories files :=
  scanExisting_exact Small.byName Small.stocked "/m".toList Small.readOnlyConfig
    [Small.m, Small.a] (by decide) Small.stocked_opens

end CvdBench.Worker

import CvdBench.Worker.Removal
import Mathlib.Data.String.Basic

/-!
What the removal loop leaves behind.
-/

set_option autoImplicit false

namespace CvdBench.Worker

open Foundation

namespace Clearing

variable (order : List Char → HashOrder EntryName)

def Leads (s s' : Clearing) : Prop :=
  ∃ n, ∀ fuel, Clearing.loop order (fuel + n) s = Clearing.loop order fuel s'

variable {order}

theorem Leads.refl (s : Clearing) : s.Leads order s := ⟨0, fun _ => rfl⟩

theorem Leads.trans {s s' s'' : Clearing} (h : s.Leads order s') (h' : s'.Leads order s'') :
    s.Leads order s'' := by
  obtain ⟨n, hn⟩ := h
  obtain ⟨n', hn'⟩ := h'
  refine ⟨n' + n, fun fuel => ?_⟩
  rw [← Nat.add_assoc, hn, hn']

theorem Leads.turn {s s' s'' : Clearing} (h : s.turn order = .ok s')
    (h' : s'.Leads order s'') : s.Leads order s'' := by
  refine Leads.trans ⟨1, fun fuel => ?_⟩ h'
  rw [Clearing.loop, h]

theorem Leads.ends {s : Clearing} {tree : FileTree EntryName}
    (h : s.Leads order ⟨tree, ⟨[], none⟩, []⟩) :
    ∃ n, ∀ fuel, n ≤ fuel → Clearing.loop order fuel s = some (tree, .ok ()) := by
  obtain ⟨n, hn⟩ := h
  refine ⟨n + 1, fun fuel hfuel => ?_⟩
  obtain ⟨m, rfl⟩ := Nat.exists_eq_add_of_le hfuel
  have hadd : n + 1 + m = (m + 1) + n := by omega
  rw [hadd, hn]
  rfl

end Clearing

/-- The path names the directory `dir ++ [k]`, and not by way of what lies below it. -/
structure Named (t : FileTree EntryName) (path : List Char) (dir : List EntryName)
    (k : EntryName) : Prop where
  nonempty : path ≠ []
  node : t.get? (dir ++ [k]) = some .dir
  leads : ∃ base, pathComps path = base ++ [.name k] ∧
    find (t.emptied (dir ++ [k])) base = .ok dir

def Spares (t t' : FileTree EntryName) (l : List EntryName) : Prop :=
  ∀ l', t'.get? l' = t.get? l' ∨ t'.get? l' = none ∧ l <+: l' ∧ l' ≠ l

section

variable {t t' : FileTree EntryName} {path : List Char} {dir : List EntryName} {k : EntryName}

theorem Spares.emptied {l : List EntryName} (h : Spares t t' l) : t'.emptied l = t.emptied l := by
  funext l'
  unfold FileTree.emptied
  split
  · rfl
  · next hout =>
    rcases h l' with heq | ⟨_, hbelow⟩
    · exact heq
    · exact absurd hbelow hout

theorem Spares.sub {l : List EntryName} (h : Spares t t' l) {l' : List EntryName}
    {n : Node EntryName} (hn : t'.get? l' = some n) : t.get? l' = some n := by
  rcases h l' with heq | ⟨hnone, _⟩
  · rw [← heq, hn]
  · rw [hnone] at hn
    cases hn

theorem Spares.eq_outside {l l' : List EntryName} (h : Spares t t' l) (hout : ¬ l <+: l') :
    t'.get? l' = t.get? l' := by
  rcases h l' with heq | ⟨_, hp, _⟩
  · exact heq
  · exact absurd hp hout

theorem Named.spares (h : Named t path dir k) (hs : Spares t t' (dir ++ [k])) :
    Named t' path dir k := by
  obtain ⟨base, hbase, hfind⟩ := h.leads
  refine ⟨h.nonempty, ?_, base, hbase, by rw [hs.emptied, hfind]⟩
  rcases hs (dir ++ [k]) with heq | ⟨_, _, hne⟩
  · rw [heq, h.node]
  · exact absurd rfl hne

theorem Named.find (h : Named t path dir k) :
    find (t.emptied (dir ++ [k])) (pathComps path) = .ok (dir ++ [k]) := by
  obtain ⟨base, hbase, hfind⟩ := h.leads
  have hdir : t.emptied (dir ++ [k]) dir = some .dir :=
    FileTree.emptied_eq_some.mpr ⟨FileTree.get?_parent h.node, fun hp =>
      absurd hp (FileTree.not_concat_prefix dir k)⟩
  have hnode : t.emptied (dir ++ [k]) (dir ++ [k]) = some .dir :=
    FileTree.emptied_eq_some.mpr ⟨h.node, fun _ => rfl⟩
  rw [hbase, find_join hdir (fun target => by rw [hnode]; simp) hfind, stepInto, hnode]

theorem emptied_le (t : FileTree EntryName) (l : List EntryName) :
    ∀ l' n, t.emptied l l' = some n → t.get? l' = some n :=
  fun _ _ h => (FileTree.emptied_eq_some.mp h).1

theorem Named.reached (h : Named t path dir k) :
    Foundation.find t.get? (pathComps path) = .ok (dir ++ [k]) :=
  find_mono (emptied_le t _) h.find

theorem Named.entry (h : Named t path dir k) : t.entry (pathComps path) = .ok (dir, k) := by
  obtain ⟨base, hbase, hfind⟩ := h.leads
  rw [hbase]
  exact FileTree.entry_join k (find_mono (emptied_le t _) hfind) (FileTree.get?_parent h.node)

theorem Named.join (h : Named t path dir k) {c : EntryName}
    (hc : t.get? (dir ++ [k] ++ [c]) = some .dir) :
    Named t (joinPath path c.chars) (dir ++ [k]) c := by
  refine ⟨joinPath_ne_nil _ h.nonempty, hc, pathComps path, pathComps_join h.nonempty c, ?_⟩
  refine find_mono (fun l n hl => ?_) h.find
  obtain ⟨hget, habove⟩ := FileTree.emptied_eq_some.mp hl
  refine FileTree.emptied_eq_some.mpr ⟨hget, fun hp => ?_⟩
  have heq := habove ((List.prefix_append _ _).trans hp)
  rw [heq] at hp
  exact absurd hp (FileTree.not_concat_prefix _ c)

theorem Named.entry_join (h : Named t path dir k) (c : EntryName) :
    t.entry (pathComps (joinPath path c.chars)) = .ok (dir ++ [k], c) := by
  rw [pathComps_join h.nonempty]
  exact FileTree.entry_join c h.reached h.node

end

variable {order : List Char → HashOrder EntryName}

/-- What reading the entries `names` of the directory `base` makes of the tree: what is no
directory is gone, and `dirs` are the directories. -/
structure Listed (t t' : FileTree EntryName) (base names dirs : List EntryName) : Prop where
  gone : ∀ c ∈ names, t.get? (base ++ [c]) ≠ some .dir → t'.get? (base ++ [c]) = none
  kept : ∀ l, (∀ c ∈ names, l = base ++ [c] → t.get? l = some .dir) → t'.get? l = t.get? l
  nodup : dirs.Nodup
  dirs : ∀ c, c ∈ dirs ↔ c ∈ names ∧ t.get? (base ++ [c]) = some .dir

section

variable {t t₁ t' : FileTree EntryName} {base names dirs : List EntryName} {name : EntryName}

theorem Listed.nil (t : FileTree EntryName) (base : List EntryName) : Listed t t base [] [] :=
  ⟨by simp, fun _ _ => rfl, List.nodup_nil, by simp⟩

theorem Listed.dir (h : Listed t t' base names dirs) (hnew : name ∉ names)
    (hdir : t.get? (base ++ [name]) = some .dir) :
    Listed t t' base (name :: names) (dirs ++ [name]) where
  gone := by
    intro c hc hcdir
    rcases List.mem_cons.mp hc with rfl | hc
    · exact absurd hdir hcdir
    · exact h.gone c hc hcdir
  kept := fun l hl => h.kept l fun c hc => hl c (by simp [hc])
  nodup := by
    refine List.nodup_append.mpr ⟨h.nodup, List.nodup_singleton _, fun a ha b hb => ?_⟩
    rw [List.mem_singleton.mp hb]
    rintro rfl
    exact hnew ((h.dirs a).mp ha).1
  dirs := by
    intro c
    rw [List.mem_append, h.dirs, List.mem_singleton, List.mem_cons]
    constructor
    · rintro (⟨hc, hcdir⟩ | rfl)
      · exact ⟨.inr hc, hcdir⟩
      · exact ⟨.inl rfl, hdir⟩
    · rintro ⟨rfl | hc, hcdir⟩
      · exact .inr rfl
      · exact .inl ⟨hc, hcdir⟩

theorem concat_ne_of_mem (hnew : name ∉ names) {c : EntryName} (hc : c ∈ names) :
    base ++ [c] ≠ base ++ [name] := by
  intro heq
  have hlast := List.append_cancel_left heq
  rw [List.cons.injEq] at hlast
  exact hnew (hlast.1 ▸ hc)

theorem Listed.other (h : Listed t₁ t' base names dirs) (hnew : name ∉ names)
    (hother : t.get? (base ++ [name]) ≠ some .dir)
    (hget : ∀ l, t₁.get? l = if l = base ++ [name] then none else t.get? l) :
    Listed t t' base (name :: names) dirs := by
  have hothers : ∀ c ∈ names, t₁.get? (base ++ [c]) = t.get? (base ++ [c]) := fun c hc => by
    rw [hget, if_neg (concat_ne_of_mem hnew hc)]
  refine ⟨?_, ?_, h.nodup, ?_⟩
  · intro c hc hcdir
    rcases List.mem_cons.mp hc with rfl | hc
    · rw [h.kept _ fun c' hc' heq => absurd heq.symm (concat_ne_of_mem hnew hc'), hget, if_pos rfl]
    · exact h.gone c hc (by rwa [hothers c hc])
  · intro l hl
    have hlname : l ≠ base ++ [name] := fun heq => hother (heq ▸ hl name (by simp) heq)
    have hget' : t₁.get? l = t.get? l := by rw [hget, if_neg hlname]
    rw [h.kept l fun c hc heq => by rw [hget']; exact hl c (by simp [hc]) heq, hget']
  · intro c
    rw [h.dirs, List.mem_cons]
    constructor
    · rintro ⟨hc, hcdir⟩
      rw [hothers c hc] at hcdir
      exact ⟨.inr hc, hcdir⟩
    · rintro ⟨rfl | hc, hcdir⟩
      · exact absurd hcdir hother
      · exact ⟨hc, by rw [hothers c hc, hcdir]⟩

theorem Listed.spares (h : Listed t t' base names dirs) : Spares t t' base := by
  intro l
  by_cases hl : ∀ c ∈ names, l = base ++ [c] → t.get? l = some .dir
  · exact .inl (h.kept l hl)
  · push Not at hl
    obtain ⟨c, hc, rfl, hcdir⟩ := hl
    exact .inr ⟨h.gone c hc hcdir, List.prefix_append _ _, by simp⟩

theorem Listed.get?_dir (h : Listed t t' base names dirs) {c : EntryName} (hc : c ∈ dirs) :
    t'.get? (base ++ [c]) = some .dir := by
  have hcdir := ((h.dirs c).mp hc).2
  rw [h.kept _ fun _ _ _ => hcdir, hcdir]

theorem Listed.get?_other (h : Listed t t' base names dirs)
    (hnames : ∀ c n, t.get? (base ++ [c]) = some n → c ∈ names) {c : EntryName} (hc : c ∉ dirs) :
    t'.get? (base ++ [c]) = none := by
  by_contra hsome
  obtain ⟨n, hn⟩ := Option.ne_none_iff_exists'.mp hsome
  have hlist := hnames c n (h.spares.sub hn)
  have hother : t.get? (base ++ [c]) ≠ some .dir :=
    fun hcdir => hc ((h.dirs c).mpr ⟨hlist, hcdir⟩)
  exact hsome (h.gone c hlist hother)

end

theorem leads_listing {t : FileTree EntryName} {path : List Char} {dir : List EntryName}
    {k : EntryName} (hnamed : Named t path dir k) {names : List EntryName} (hnodup : names.Nodup)
    (hnames : ∀ c ∈ names, ∃ n, t.get? (dir ++ [k] ++ [c]) = some n)
    (stack : List (List Char × Bool)) :
    ∃ (t' : FileTree EntryName) (dirs : List EntryName),
      Clearing.Leads order ⟨t, ⟨stack, some path⟩, names⟩
        ⟨t', ⟨dirs.map (fun c => (joinPath path c.chars, false)) ++ stack, none⟩, []⟩ ∧
      Listed t t' (dir ++ [k]) names dirs := by
  induction names generalizing t stack with
  | nil => exact ⟨t, [], .turn rfl (.refl _), .nil t _⟩
  | cons name names ih =>
    obtain ⟨hnew, hrest⟩ := List.nodup_cons.mp hnodup
    obtain ⟨n, hn⟩ := hnames name (by simp)
    have hmeta : t.symlinkMetadata (pathComps (joinPath path name.chars)) = .ok n := by
      rw [FileTree.symlinkMetadata, hnamed.entry_join name]
      simp only [hn]
    by_cases hdir : n = .dir
    · subst hdir
      obtain ⟨t', dirs, hleads, hlisted⟩ :=
        ih hnamed hrest (fun c hc => hnames c (by simp [hc]))
          ((joinPath path name.chars, false) :: stack)
      refine ⟨t', dirs ++ [name], .turn ?_ (by simpa using hleads), hlisted.dir hnew hn⟩
      simp only [Clearing.turn, hmeta]
    · have hother : t.get? (dir ++ [k] ++ [name]) ≠ some .dir := by
        rw [hn]
        simpa using hdir
      have hget := FileTree.get?_erase (by simp) (FileTree.children_of_not_dir hother)
      have hremove : t.removeFile (pathComps (joinPath path name.chars)) =
          .ok (t.erase (dir ++ [k] ++ [name])) := by
        rw [FileTree.removeFile, hnamed.entry_join name]
        cases n with
        | dir => exact absurd rfl hdir
        | file | special | link => simp only [hn]
      have hspares : Spares t (t.erase (dir ++ [k] ++ [name])) (dir ++ [k]) := by
        intro l
        rw [hget]
        split
        · next heq =>
          subst heq
          exact .inr ⟨rfl, List.prefix_append _ _, by simp⟩
        · exact .inl rfl
      have hthere : ∀ c ∈ names, ∃ n',
          (t.erase (dir ++ [k] ++ [name])).get? (dir ++ [k] ++ [c]) = some n' := fun c hc => by
        rw [hget, if_neg (concat_ne_of_mem hnew hc)]
        exact hnames c (by simp [hc])
      obtain ⟨t', dirs, hleads, hlisted⟩ := ih (hnamed.spares hspares) hrest hthere stack
      refine ⟨t', dirs, .turn ?_ hleads, hlisted.other hnew hother hget⟩
      cases n with
      | dir => exact absurd rfl hdir
      | file | special | link => simp only [Clearing.turn, hmeta, hremove]

def Clears (order : List Char → HashOrder EntryName) (depth : Nat) : Prop :=
  ∀ (t : FileTree EntryName) (path : List Char) (dir : List EntryName) (k : EntryName)
    (rest : List (List Char × Bool)), Named t path dir k →
    (∀ l n, t.get? l = some n → l.length < (dir ++ [k]).length + depth) →
    ∃ t' : FileTree EntryName,
      Clearing.Leads order ⟨t, ⟨(path, false) :: rest, none⟩, []⟩ ⟨t', ⟨rest, none⟩, []⟩ ∧
        ∀ l, t'.get? l = if dir ++ [k] <+: l then none else t.get? l

theorem prefix_name {dir : List EntryName} {k c : EntryName} (hne : c ≠ k) {l : List EntryName}
    (h : dir ++ [k] <+: l) : ¬ dir ++ [c] <+: l := by
  intro h'
  obtain ⟨below, rfl⟩ := h
  rw [List.append_assoc, List.prefix_append_right_inj, List.singleton_append,
    List.cons_prefix_cons] at h'
  exact hne h'.1

theorem leads_dirs {depth : Nat} (hclears : Clears order depth) {t : FileTree EntryName}
    {path : List Char} {dir : List EntryName} {k : EntryName} (hnamed : Named t path dir k)
    (hdepth : ∀ l n, t.get? l = some n → l.length < (dir ++ [k]).length + (depth + 1))
    {dirs : List EntryName} (hnodup : dirs.Nodup)
    (hdirs : ∀ c ∈ dirs, t.get? (dir ++ [k] ++ [c]) = some .dir)
    (rest : List (List Char × Bool)) :
    ∃ t' : FileTree EntryName,
      Clearing.Leads order
        ⟨t, ⟨dirs.map (fun c => (joinPath path c.chars, false)) ++ rest, none⟩, []⟩
        ⟨t', ⟨rest, none⟩, []⟩ ∧
      (∀ c ∈ dirs, ∀ l, dir ++ [k] ++ [c] <+: l → t'.get? l = none) ∧
      ∀ l, (∀ c ∈ dirs, ¬ dir ++ [k] ++ [c] <+: l) → t'.get? l = t.get? l := by
  induction dirs generalizing t with
  | nil => exact ⟨t, .refl _, by simp, fun _ _ => rfl⟩
  | cons c dirs ih =>
    obtain ⟨hnew, hrest⟩ := List.nodup_cons.mp hnodup
    obtain ⟨t₁, hleads₁, hget₁⟩ := hclears t _ _ c
      (dirs.map (fun c => (joinPath path c.chars, false)) ++ rest)
      (hnamed.join (hdirs c (by simp))) (fun l n hl => by
        have hlen := hdepth l n hl
        simp only [List.length_append, List.length_singleton] at hlen ⊢
        omega)
    have hspares : Spares t t₁ (dir ++ [k]) := by
      intro l
      rw [hget₁]
      split
      · next hp =>
        refine .inr ⟨rfl, (List.prefix_append _ _).trans hp, ?_⟩
        rintro rfl
        exact FileTree.not_concat_prefix _ c hp
      · exact .inl rfl
    have hne : ∀ c' ∈ dirs, c' ≠ c := fun c' hc' heq => hnew (heq ▸ hc')
    obtain ⟨t', hleads, hgone, hkept⟩ := ih (hnamed.spares hspares)
      (fun l n hl => by
        rw [hget₁] at hl
        split at hl
        · cases hl
        · exact hdepth l n hl)
      hrest (fun c' hc' => by
        rw [hget₁, if_neg (prefix_name (hne c' hc').symm (List.prefix_refl _))]
        exact hdirs c' (by simp [hc']))
    refine ⟨t', hleads₁.trans hleads, fun c' hc' l hl => ?_, fun l hl => ?_⟩
    · rcases List.mem_cons.mp hc' with rfl | hc'
      · rw [hkept l fun c hc => prefix_name (hne c hc) hl, hget₁, if_pos hl]
      · exact hgone c' hc' l hl
    · rw [hkept l fun c hc => hl c (by simp [hc]), hget₁, if_neg (hl c (by simp))]

theorem leads_clear (order : List Char → HashOrder EntryName) (depth : Nat) :
    Clears order depth := by
  induction depth with
  | zero =>
    intro t path dir k rest hnamed hdepth
    exact absurd (hdepth _ _ hnamed.node) (by simp)
  | succ depth ih =>
    intro t path dir k rest hnamed hdepth
    -- the directory is listed
    have hread : t.readDir (order path) (pathComps path) =
        .ok ((order path).iter (t.children (dir ++ [k]))) := by
      rw [FileTree.readDir, hnamed.reached]
      simp only [hnamed.node, if_true]
    have hmem : ∀ c, c ∈ (order path).iter (t.children (dir ++ [k])) ↔
        ∃ n, t.get? (dir ++ [k] ++ [c]) = some n := fun c => by
      rw [(order path).mem_iter, FileTree.mem_children]
    obtain ⟨t₁, dirs, hlisting, hlisted⟩ :=
      leads_listing hnamed ((order path).nodup_iter _) (fun c hc => (hmem c).mp hc)
        ((path, true) :: rest)
    have hspares₁ := hlisted.spares
    -- its directories are removed
    obtain ⟨t₂, hcleared, hgone, hkept⟩ := leads_dirs ih (hnamed.spares hspares₁)
      (fun l n hl => hdepth l n (hspares₁.sub hl)) hlisted.nodup (fun _ => hlisted.get?_dir)
      ((path, true) :: rest)
    have hspares₂ : Spares t₁ t₂ (dir ++ [k]) := by
      intro l
      by_cases hl : ∀ c ∈ dirs, ¬ dir ++ [k] ++ [c] <+: l
      · exact .inl (hkept l hl)
      · push Not at hl
        obtain ⟨c, hc, hp⟩ := hl
        refine .inr ⟨hgone c hc l hp, (List.prefix_append _ _).trans hp, ?_⟩
        rintro rfl
        exact FileTree.not_concat_prefix _ c hp
    have hnamed₂ := (hnamed.spares hspares₁).spares hspares₂
    have hempty : t₂.children (dir ++ [k]) = ∅ := by
      refine FileTree.children_eq_empty.mpr fun c => ?_
      by_cases hc : c ∈ dirs
      · exact hgone c hc _ (List.prefix_refl _)
      · have hnone := hlisted.get?_other (fun c n hn => (hmem c).mpr ⟨n, hn⟩) hc
        rcases hspares₂ (dir ++ [k] ++ [c]) with heq | ⟨hnone₂, _⟩
        · rw [heq, hnone]
        · exact hnone₂
    -- and then the directory itself
    have hremove : t₂.removeDir (pathComps path) = .ok (t₂.erase (dir ++ [k])) := by
      rw [FileTree.removeDir, hnamed₂.entry]
      simp only [hnamed₂.node, hempty, if_true]
    refine ⟨t₂.erase (dir ++ [k]), ?_, fun l => ?_⟩
    · refine .turn ?_ (hlisting.trans (hcleared.trans (.turn ?_ (.refl _))))
      · simp only [Clearing.turn, hread]
      · simp only [Clearing.turn, hremove]
    · rw [FileTree.get?_erase (by simp) hempty]
      split
      · next heq =>
        rw [heq, if_pos (List.prefix_refl _)]
      · next hne =>
        split
        · next hp => exact FileTree.get?_below_empty hempty hp hne
        · next hout => rw [hspares₂.eq_outside hout, hspares₁.eq_outside hout]

/-- The root is the entry `k` of a directory, and a real directory. -/
structure RealDir (t : FileTree EntryName) (base : List Char) (k : EntryName)
    (dir : List EntryName) : Prop where
  nonempty : base ≠ []
  found : find t.get? (pathComps base) = .ok dir
  node : t.get? (dir ++ [k]) = some .dir

/-- The path of the root does not lead through what lies below the root. -/
def Apart (t : FileTree EntryName) (base : List Char) (k : EntryName)
    (dir : List EntryName) : Prop :=
  find (t.emptied (dir ++ [k])) (pathComps base) = .ok dir

def RemovedAt (t t' : FileTree EntryName) (l : List EntryName) : Prop :=
  ∀ l', t'.get? l' = if l <+: l' then none else t.get? l'

def Leaves {ε : Type} (run : Nat → Option (FileTree EntryName × Except ε Unit))
    (t' : FileTree EntryName) : Prop :=
  ∃ n, ∀ fuel, n ≤ fuel → run fuel = some (t', .ok ())

section

variable {t : FileTree EntryName} {base : List Char} {k : EntryName} {dir : List EntryName}

theorem RealDir.named (h : RealDir t base k dir) (hapart : Apart t base k dir) :
    Named t (joinPath base k.chars) dir k :=
  ⟨joinPath_ne_nil _ h.nonempty, h.node, pathComps base, pathComps_join h.nonempty k, hapart⟩

theorem removeDirAllNoFollow_leaves (order : List Char → HashOrder EntryName)
    (h : RealDir t base k dir) (hapart : Apart t base k dir) :
    ∃ t', RemovedAt t t' (dir ++ [k]) ∧
      Leaves (fun fuel => removeDirAllNoFollow order fuel t (joinPath base k.chars)) t' := by
  obtain ⟨depth, hdepth⟩ := t.exists_depth
  obtain ⟨t', hleads, hget⟩ := leads_clear order depth t (joinPath base k.chars) dir k []
    (h.named hapart) fun l n hl => Nat.lt_of_lt_of_le (hdepth l n hl) (Nat.le_add_left ..)
  exact ⟨t', hget, hleads.ends⟩

theorem RealDir.kind (h : RealDir t base k dir) :
    rootKind t (joinPath base k.chars) = .ok .dir := by
  have hdir := FileTree.get?_parent h.node
  rw [rootKind, FileTree.symlinkMetadata, pathComps_join h.nonempty,
    FileTree.entry_join k h.found hdir]
  simp only [h.node]

theorem RealDir.cleanupIn_eq (h : RealDir t base k dir) {mount : List Char}
    (hmount : pathStartsWith (joinPath base k.chars) mount = true)
    (order : List Char → HashOrder EntryName) (fuel : Nat) :
    bestEffortCleanupIn order fuel t mount (joinPath base k.chars) =
      (removeDirAllNoFollow order fuel t (joinPath base k.chars)).map
        fun res => (res.1, res.2.mapError .io) := by
  unfold bestEffortCleanupIn cleanupIn
  simp only [hmount, not_true, if_false, h.kind, bestEffortCleanup]
  rfl

end

section

variable {t : FileTree EntryName} {base : List Char} {k : EntryName} {dir : List EntryName}

def Reaches (t : FileTree EntryName) (base : List Char) (k : EntryName) (dir : List EntryName)
    (path : List Char) : Prop :=
  path ≠ [] ∧ ∃ names : List EntryName,
    pathComps path = pathComps base ++ .name k :: names.map .name ∧
      find t.get? (pathComps path) = .ok (dir ++ [k] ++ names) ∧
      t.get? (dir ++ [k] ++ names) = some .dir

/-- The loop has only taken things away, and the root only if its path stands apart. -/
structure Shrunk (t : FileTree EntryName) (base : List Char) (k : EntryName)
    (dir : List EntryName) (s : Clearing) : Prop where
  sub : ∀ l n, s.tree.get? l = some n → t.get? l = some n
  stack : ∀ item ∈ s.sweep.stack, Reaches t base k dir item.1
  listing : ∀ path, s.sweep.listing = some path → Reaches t base k dir path
  root : s.tree.get? (dir ++ [k]) = some .dir ∨ Apart t base k dir

theorem Reaches.join {path : List Char} (h : Reaches t base k dir path) {c : EntryName}
    {t' : FileTree EntryName} (hsub : ∀ l n, t'.get? l = some n → t.get? l = some n)
    (hmeta : t'.symlinkMetadata (pathComps (joinPath path c.chars)) = .ok .dir) :
    Reaches t base k dir (joinPath path c.chars) := by
  obtain ⟨hne, names, hcomps, hfind, hdir⟩ := h
  obtain ⟨d, c', hentry, hnode⟩ := FileTree.symlinkMetadata_eq_ok hmeta
  obtain ⟨pre, hpre, hfound, _⟩ := FileTree.entry_eq_ok hentry
  rw [pathComps_join hne] at hpre
  obtain ⟨rfl, hlast⟩ := List.append_inj' hpre rfl
  cases hlast
  have hsame := find_mono hsub hfound
  rw [hfind, Except.ok.injEq] at hsame
  subst hsame
  have hnode' := hsub _ _ hnode
  refine ⟨joinPath_ne_nil _ hne, names ++ [c], by rw [pathComps_join hne, hcomps]; simp, ?_, ?_⟩
  · rw [pathComps_join hne, find_join hdir (fun target => by rw [hnode']; simp) hfind, stepInto,
      hnode', List.append_assoc]
  · rw [← List.append_assoc, hnode']

theorem Shrunk.erase {s : Clearing} (h : Shrunk t base k dir s) {l : List EntryName} (hl : l ≠ [])
    (hempty : s.tree.children l = ∅)
    (hroot : l = dir ++ [k] → s.tree.get? (dir ++ [k]) = some .dir → Apart t base k dir) :
    (∀ l' n, (s.tree.erase l).get? l' = some n → t.get? l' = some n) ∧
      ((s.tree.erase l).get? (dir ++ [k]) = some .dir ∨ Apart t base k dir) := by
  have hget := FileTree.get?_erase hl hempty
  refine ⟨fun l' n hn => ?_, ?_⟩
  · rw [hget] at hn
    split at hn
    · cases hn
    · exact h.sub l' n hn
  · rcases h.root with hdir | hapart
    · rw [hget]
      split
      · next heq => exact .inr (hroot heq.symm hdir)
      · exact .inl hdir
    · exact .inr hapart

theorem Reaches.apart {path : List Char} (h : Reaches t base k dir path)
    {t' : FileTree EntryName} (hsub : ∀ l n, t'.get? l = some n → t.get? l = some n)
    {d : List EntryName} {c : EntryName} (hentry : t'.entry (pathComps path) = .ok (d, c))
    (hnode : t'.get? (d ++ [c]) = some .dir) (hempty : t'.children (d ++ [c]) = ∅)
    (hroot : d ++ [c] = dir ++ [k]) : Apart t base k dir := by
  obtain ⟨_, names, hcomps, hfind, _⟩ := h
  obtain ⟨pre, hpre, hfound, hd⟩ := FileTree.entry_eq_ok hentry
  have hnode' := hsub _ _ hnode
  have hplace : find t.get? (pathComps path) = .ok (d ++ [c]) := by
    rw [hpre, find_join (hsub _ _ hd) (fun target => by rw [hnode']; simp) (find_mono hsub hfound),
      stepInto, hnode']
  have hnames : names = [] := by
    rw [hfind, Except.ok.injEq, hroot] at hplace
    simpa using hplace
  subst hnames
  rw [hcomps, List.map_nil] at hpre
  obtain ⟨rfl, _⟩ := List.append_inj' hpre rfl
  obtain ⟨rfl, _⟩ := List.append_inj' hroot rfl
  refine find_mono (fun l n hl => ?_) hfound
  refine FileTree.emptied_eq_some.mpr ⟨hsub l n hl, fun hp => ?_⟩
  by_contra hne
  rw [← hroot] at hp hne
  rw [FileTree.get?_below_empty hempty hp hne] at hl
  cases hl

theorem Shrunk.turn {order : List Char → HashOrder EntryName} {s s' : Clearing}
    (h : Shrunk t base k dir s) (hturn : s.turn order = .ok s') : Shrunk t base k dir s' := by
  obtain ⟨tree, ⟨stack, listing⟩, pending⟩ := s
  unfold Clearing.turn at hturn
  simp only at hturn
  cases listing with
  | some path =>
    have hpath := h.listing path rfl
    cases pending with
    | nil =>
      cases hturn
      exact ⟨h.sub, h.stack, by simp, h.root⟩
    | cons c pending =>
      simp only at hturn
      split at hturn
      · cases hturn
        exact ⟨h.sub, h.stack, h.listing, h.root⟩
      · cases hturn
      · next hmeta =>
        cases hturn
        exact ⟨h.sub, List.forall_mem_cons.mpr ⟨hpath.join h.sub hmeta, h.stack⟩, h.listing, h.root⟩
      · split at hturn
        · next tree' hremove =>
          cases hturn
          obtain ⟨d, c', _, hnotdir, rfl⟩ := FileTree.removeFile_eq_ok hremove
          obtain ⟨hsub, hroot⟩ := h.erase (by simp) (FileTree.children_of_not_dir hnotdir)
            fun heq hdir => absurd (heq ▸ hdir) hnotdir
          exact ⟨hsub, h.stack, h.listing, hroot⟩
        · cases hturn
          exact ⟨h.sub, h.stack, h.listing, h.root⟩
        · cases hturn
  | none =>
    simp only at hturn
    split at hturn
    · cases hturn
    · next path rest =>
      have hstack := List.forall_mem_cons.mp h.stack
      split at hturn
      · next tree' hremove =>
        cases hturn
        obtain ⟨d, c, hentry, hnode, hempty, rfl⟩ := FileTree.removeDir_eq_ok hremove
        obtain ⟨hsub, hroot⟩ := h.erase (by simp) hempty
          fun heq _ => hstack.1.apart h.sub hentry hnode hempty heq
        exact ⟨hsub, hstack.2, by simp, hroot⟩
      · cases hturn
        exact ⟨h.sub, hstack.2, by simp, h.root⟩
      · cases hturn
    · next path rest =>
      have hstack := List.forall_mem_cons.mp h.stack
      have hagain : ∀ item ∈ (path, true) :: rest, Reaches t base k dir item.1 :=
        List.forall_mem_cons.mpr hstack
      split at hturn
      · cases hturn
        refine ⟨h.sub, hagain, ?_, h.root⟩
        rintro path' ⟨⟩
        exact hstack.1
      · cases hturn
        exact ⟨h.sub, hagain, by simp, h.root⟩
      · cases hturn

theorem Shrunk.loop {order : List Char → HashOrder EntryName} {fuel : Nat} {s : Clearing}
    (h : Shrunk t base k dir s) {res : FileTree EntryName × Except Errno Unit}
    (hloop : Clearing.loop order fuel s = some res) :
    res.1.get? (dir ++ [k]) = some .dir ∨ Apart t base k dir := by
  induction fuel generalizing s with
  | zero => cases hloop
  | succ fuel ih =>
    unfold Clearing.loop at hloop
    split at hloop
    · cases hloop
      exact h.root
    · next s' hturn => exact ih (h.turn hturn) hloop

theorem RealDir.shrunk (h : RealDir t base k dir) :
    Shrunk t base k dir ⟨t, .from (joinPath base k.chars), []⟩ where
  sub _ _ hl := hl
  stack := by
    have hdir := FileTree.get?_parent h.node
    refine List.forall_mem_singleton.mpr ⟨joinPath_ne_nil _ h.nonempty, [], ?_, ?_, ?_⟩
    · exact pathComps_join h.nonempty k
    · rw [pathComps_join h.nonempty, find_join hdir (fun target => by rw [h.node]; simp) h.found,
        stepInto, h.node, List.append_nil]
    · rw [List.append_nil, h.node]
  listing := by
    rintro path ⟨⟩
  root := .inl h.node

theorem RealDir.apart_of_leaves (h : RealDir t base k dir)
    {order : List Char → HashOrder EntryName} {t' : FileTree EntryName}
    (hremoved : RemovedAt t t' (dir ++ [k]))
    (hleaves : Leaves (fun fuel => removeDirAllNoFollow order fuel t (joinPath base k.chars)) t') :
    Apart t base k dir := by
  obtain ⟨n, hn⟩ := hleaves
  rcases h.shrunk.loop (hn n le_rfl) with hdir | hapart
  · rw [hremoved, if_pos (List.prefix_refl _)] at hdir
    cases hdir
  · exact hapart

/-- Both functions, started at a real directory, succeed and leave the tree without its
subtree, if and only if the path of the root does not lead through that subtree. -/
theorem removal_exact_iff (h : RealDir t base k dir) {mount : List Char}
    (hmount : pathStartsWith (joinPath base k.chars) mount = true)
    (order order' : List Char → HashOrder EntryName) :
    (∃ t', RemovedAt t t' (dir ++ [k]) ∧
      Leaves (fun fuel => removeDirAllNoFollow order fuel t (joinPath base k.chars)) t' ∧
      Leaves (fun fuel => bestEffortCleanupIn order' fuel t mount (joinPath base k.chars)) t') ↔
    Apart t base k dir := by
  constructor
  · rintro ⟨t', hremoved, hleaves, _⟩
    exact h.apart_of_leaves hremoved hleaves
  · intro hapart
    obtain ⟨t', hremoved, hleaves⟩ := removeDirAllNoFollow_leaves order h hapart
    obtain ⟨t'', hremoved', n, hn⟩ := removeDirAllNoFollow_leaves order' h hapart
    obtain rfl : t' = t'' := FileTree.ext_get? fun l => by rw [hremoved, hremoved']
    refine ⟨t', hremoved, hleaves, n, fun fuel hfuel => ?_⟩
    have hloop : removeDirAllNoFollow order' fuel t (joinPath base k.chars) = some (t', .ok ()) :=
      hn fuel hfuel
    show bestEffortCleanupIn order' fuel t mount (joinPath base k.chars) = _
    rw [h.cleanupIn_eq hmount, hloop]
    rfl

end

namespace Small

def m : EntryName := ⟨['m'], by decide, by decide, by decide⟩

def a : EntryName := ⟨['a'], by decide, by decide, by decide⟩

def f : EntryName := ⟨['f'], by decide, by decide, by decide⟩

def up : EntryName := ⟨['u', 'p'], by decide, by decide, by decide⟩

def looped : FileTree EntryName :=
  (((FileTree.new.insert [] m .dir).insert [m] a .dir).insert [m, a] f .file).insert [m, a] up
    (.link ⟨true, [.name m]⟩)

def byName : List Char → HashOrder EntryName := fun _ =>
  letI := LinearOrder.lift' (fun name : EntryName => String.ofList name.chars) fun a b h => by
    cases a
    cases b
    cases String.ofList_injective h
    rfl
  HashOrder.ascending EntryName

theorem direct : RealDir looped "/m".toList a [m] := ⟨by decide, by decide, by decide⟩

theorem roundabout : RealDir looped "/m/a/up".toList a [m] := ⟨by decide, by decide, by decide⟩

end Small

/-- The root `/m/a`: its link is taken out, and `/m` stays. -/
theorem removal_exact_small : ∃ t', RemovedAt Small.looped t' [Small.m, Small.a] ∧
    Leaves (fun fuel => removeDirAllNoFollow Small.byName fuel Small.looped
      (joinPath "/m".toList Small.a.chars)) t' ∧
    Leaves (fun fuel => bestEffortCleanupIn Small.byName fuel Small.looped "/m".toList
      (joinPath "/m".toList Small.a.chars)) t' :=
  (removal_exact_iff Small.direct (by decide) Small.byName Small.byName).mpr
    (by unfold Apart; decide)

/-- The root `/m/a/up/a` is the same directory, but its path breaks with the link. -/
theorem removal_roundabout : ¬ ∀ (t : FileTree EntryName) (base mount : List Char) (k : EntryName)
    (dir : List EntryName) (order order' : List Char → HashOrder EntryName), RealDir t base k dir →
      pathStartsWith (joinPath base k.chars) mount = true →
      ∃ t', RemovedAt t t' (dir ++ [k]) ∧
        Leaves (fun fuel => removeDirAllNoFollow order fuel t (joinPath base k.chars)) t' ∧
        Leaves
          (fun fuel => bestEffortCleanupIn order' fuel t mount (joinPath base k.chars)) t' := by
  intro hall
  obtain ⟨t', hremoved, hleaves, _⟩ := hall Small.looped "/m/a/up".toList "/m".toList Small.a
    [Small.m] Small.byName Small.byName Small.roundabout (by decide)
  have hapart := Small.roundabout.apart_of_leaves hremoved hleaves
  unfold Apart at hapart
  exact absurd hapart (by decide)

end CvdBench.Worker

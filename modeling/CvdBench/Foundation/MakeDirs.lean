import CvdBench.Foundation.FileTree

/-!
`create_dir_all` call by call, so that several callers can take turns on one tree.
-/

set_option autoImplicit false

namespace CvdBench.Foundation

variable {κ : Type}

/-- Where a caller is: on its way up to a directory that is there or can be made, or on its
way down again. When a call has failed, it asks whether there is a directory after all. -/
inductive MakeDirs (κ : Type) where
  | climb (rev : List (Comp κ)) (todo : List (List (Comp κ)))
  | climbed (rev : List (Comp κ)) (todo : List (List (Comp κ))) (e : Errno)
  | descend (todo : List (List (Comp κ)))
  | descended (path : List (Comp κ)) (todo : List (List (Comp κ))) (e : Errno)
  | done (res : Except Errno Unit)
  deriving DecidableEq

namespace MakeDirs

def start (path : List (Comp κ)) : MakeDirs κ := .climb path.reverse []

def step [DecidableEq κ] (t : FileTree κ) : MakeDirs κ → FileTree κ × MakeDirs κ
  | .climb [] todo => (t, .descend todo)
  | .climb (comp :: above) todo => match t.createDir (comp :: above).reverse with
      | .ok t' => (t', .descend todo)
      | .error .notFound => (t, .climb above ((comp :: above).reverse :: todo))
      | .error e => (t, .climbed (comp :: above) todo e)
  | .climbed rev todo e => (t, if t.isDir rev.reverse then .descend todo else .done (.error e))
  | .descend [] => (t, .done (.ok ()))
  | .descend (path :: todo) => match t.createDir path with
      | .ok t' => (t', .descend todo)
      | .error e => (t, .descended path todo e)
  | .descended path todo e => (t, if t.isDir path then .descend todo else .done (.error e))
  | .done res => (t, .done res)

def left : MakeDirs κ → Nat
  | .climb rev todo => 4 * rev.length + 2 * todo.length + 4
  | .climbed rev todo _ => 4 * rev.length + 2 * todo.length + 3
  | .descend todo => 2 * todo.length + 2
  | .descended _ todo _ => 2 * todo.length + 3
  | .done _ => 0

variable [DecidableEq κ]

theorem left_step (t : FileTree κ) (c : MakeDirs κ) (h : ∀ res, c ≠ .done res) :
    (c.step t).2.left < c.left := by
  cases c with
  | climb rev todo =>
    cases rev with
    | nil =>
      simp only [step, left, List.length_nil]
      omega
    | cons comp above =>
      simp only [step]
      split
      · simp only [left, List.length_cons]
        omega
      · simp only [left, List.length_cons]
        omega
      · simp only [left]
        omega
  | climbed rev todo e =>
    simp only [step]
    split
    · simp only [left]
      omega
    · simp only [left]
      omega
  | descend todo =>
    cases todo with
    | nil =>
      simp only [step, left]
      omega
    | cons path todo =>
      simp only [step]
      split
      · simp only [left, List.length_cons]
        omega
      · simp only [left, List.length_cons]
        omega
  | descended path todo e =>
    simp only [step]
    split
    · simp only [left]
      omega
    · simp only [left]
      omega
  | done res => exact absurd rfl (h res)

def alone : Nat → FileTree κ × MakeDirs κ → FileTree κ × MakeDirs κ
  | 0, s => s
  | n + 1, s => alone n (s.2.step s.1)

def Leads (s s' : FileTree κ × MakeDirs κ) : Prop := ∃ n, alone n s = s'

theorem Leads.refl (s : FileTree κ × MakeDirs κ) : Leads s s := ⟨0, rfl⟩

theorem Leads.call {s s' s'' : FileTree κ × MakeDirs κ} (h : s.2.step s.1 = s')
    (h' : Leads s' s'') : Leads s s'' := by
  obtain ⟨n, hn⟩ := h'
  exact ⟨n + 1, by rw [alone, h, hn]⟩

theorem Leads.trans {s s' s'' : FileTree κ × MakeDirs κ} (h : Leads s s') (h' : Leads s' s'') :
    Leads s s'' := by
  obtain ⟨n, hn⟩ := h
  induction n generalizing s with
  | zero =>
    rw [alone] at hn
    rwa [hn]
  | succ n ih => exact .call rfl (ih hn)

def Ends (todo : List (List (Comp κ))) (s : FileTree κ × MakeDirs κ) :
    Except Errno (FileTree κ) → Prop
  | .ok t' => Leads s (t', .descend todo)
  | .error e => ∃ t', Leads s (t', .done (.error e))

theorem Ends.after {todo : List (List (Comp κ))} {s s' : FileTree κ × MakeDirs κ}
    {res : Except Errno (FileTree κ)} (h : Leads s s') (h' : Ends todo s' res) :
    Ends todo s res := by
  cases res with
  | ok t' => exact h.trans h'
  | error e =>
    obtain ⟨t', hleads⟩ := h'
    exact ⟨t', h.trans hleads⟩

theorem Ends.ask {todo : List (List (Comp κ))} {t : FileTree κ} {c : MakeDirs κ}
    {path : List (Comp κ)} {e : Errno}
    (h : c.step t = (t, if t.isDir path then .descend todo else .done (.error e))) :
    Ends todo (t, c) (if t.isDir path then .ok t else .error e) := by
  split at h
  · next hdir =>
    rw [if_pos hdir]
    exact .call h (.refl _)
  · next hdir =>
    rw [if_neg hdir]
    exact ⟨t, .call h (.refl _)⟩

theorem ends_climb (t : FileTree κ) (rev : List (Comp κ)) (todo : List (List (Comp κ))) :
    Ends todo (t, .climb rev todo) (t.createDirAllRev rev) := by
  induction rev generalizing todo with
  | nil => exact .call rfl (.refl _)
  | cons comp above ih =>
    rw [FileTree.createDirAllRev]
    cases hmake : t.createDir (comp :: above).reverse with
    | ok t' => exact .call (by simp only [step, hmake]) (.refl _)
    | error e =>
      by_cases hmissing : e = .notFound
      · subst hmissing
        have hup : Leads (t, .climb (comp :: above) todo)
            (t, .climb above ((comp :: above).reverse :: todo)) :=
          .call (by simp only [step, hmake]) (.refl _)
        have hrest := ih ((comp :: above).reverse :: todo)
        cases habove : t.createDirAllRev above with
        | error e =>
          rw [habove] at hrest
          exact Ends.after hup hrest
        | ok t' =>
          rw [habove] at hrest
          -- down again, where the directory can be made now, or is there
          refine Ends.after (hup.trans hrest) ?_
          simp only
          cases hagain : t'.createDir (comp :: above).reverse with
          | ok t'' => exact .call (by simp only [step, hagain]) (.refl _)
          | error e =>
            have hasks : Leads (t', .descend ((comp :: above).reverse :: todo))
                (t', .descended (comp :: above).reverse todo e) :=
              .call (by simp only [step, hagain]) (.refl _)
            exact Ends.after hasks (.ask rfl)
      · have hasks : Leads (t, .climb (comp :: above) todo)
            (t, .climbed (comp :: above) todo e) := by
          refine .call ?_ (.refl _)
          simp only [step, hmake]
        simp only
        exact Ends.after hasks (.ask rfl)

/-- A caller alone does what `create_dir_all` does. -/
theorem leads_start (t : FileTree κ) (path : List (Comp κ)) :
    match t.createDirAll path with
    | .ok t' => Leads (t, start path) (t', .done (.ok ()))
    | .error e => ∃ t', Leads (t, start path) (t', .done (.error e)) := by
  have hends := ends_climb t path.reverse []
  rw [FileTree.createDirAll]
  cases hmade : t.createDirAllRev path.reverse with
  | ok t' =>
    rw [hmade] at hends
    exact Leads.trans hends (.call rfl (.refl _))
  | error e =>
    rw [hmade] at hends
    exact hends

/-- Wherever there is something on the way down the names, it is a directory. -/
def Clear (t : FileTree κ) (base names : List κ) : Prop :=
  ∀ pre, pre <+: names → ∀ n, t.get? (base ++ pre) = some n → n = .dir

theorem Clear.sub {t : FileTree κ} {base names pre : List κ} (h : Clear t base names)
    (hpre : pre <+: names) : Clear t base pre := fun p hp => h p (hp.trans hpre)

section

variable {t t' : FileTree κ} {above : List (Comp κ)} {base names : List κ}

theorem Clear.dir (hclear : Clear t base names) {n : Node κ} (h : t.get? (base ++ names) = some n) :
    t.get? (base ++ names) = some .dir := by
  rw [h, hclear names (List.prefix_refl _) n h]

theorem find_clear (hfound : find t.get? above = .ok base) (hnode : t.get? base = some .dir)
    (hclear : Clear t base names) :
    find t.get? (above ++ names.map .name) =
      if t.get? (base ++ names) = some .dir then .ok (base ++ names) else .error .notFound := by
  induction names using List.reverseRecOn with
  | nil => simp [hfound, hnode]
  | append_singleton names k ih =>
    have hbefore := ih (hclear.sub (List.prefix_append _ _))
    rw [List.map_append, ← List.append_assoc, List.map_singleton, ← List.append_assoc]
    by_cases hdir : t.get? (base ++ names) = some .dir
    · rw [if_pos hdir] at hbefore
      cases hk : t.get? (base ++ names ++ [k]) with
      | none =>
        rw [if_neg (by simp)]
        exact find_missing [] hdir hk hbefore
      | some n =>
        obtain rfl : n = .dir :=
          hclear (names ++ [k]) (List.prefix_refl _) n (by rw [← List.append_assoc, hk])
        rw [if_pos rfl, find_join hdir (fun target => by rw [hk]; simp) hbefore, stepInto, hk]
    · rw [if_neg hdir] at hbefore
      rw [if_neg fun hk => hdir (FileTree.get?_parent hk)]
      exact find_error _ hbefore

theorem isDir_clear (hfound : find t.get? above = .ok base) (hnode : t.get? base = some .dir)
    (hclear : Clear t base names) (hdir : t.get? (base ++ names) = some .dir) :
    t.isDir (above ++ names.map .name) = true :=
  FileTree.isDir_iff.mpr
    ⟨base ++ names, by rw [find_clear hfound hnode hclear, if_pos hdir], hdir⟩

theorem createDir_clear (hfound : find t.get? above = .ok base) (hnode : t.get? base = some .dir)
    {k : κ} (hclear : Clear t base (names ++ [k])) :
    (t.get? (base ++ names) = none ∧
      t.createDir (above ++ (names ++ [k]).map .name) = .error .notFound) ∨
    (t.get? (base ++ names) = some .dir ∧ t.get? (base ++ names ++ [k]) = none ∧
      t.createDir (above ++ (names ++ [k]).map .name) = .ok (t.insert (base ++ names) k .dir)) ∨
    (t.get? (base ++ names ++ [k]) = some .dir ∧
      t.createDir (above ++ (names ++ [k]).map .name) = .error .alreadyExists) := by
  have hnames := hclear.sub (List.prefix_append names [k])
  have hbefore := find_clear hfound hnode hnames
  rw [List.map_append, ← List.append_assoc, List.map_singleton]
  cases hpre : t.get? (base ++ names) with
  | none =>
    rw [hpre, if_neg (by simp)] at hbefore
    refine .inl ⟨rfl, ?_⟩
    rw [FileTree.createDir, FileTree.entry, List.getLast?_concat, List.dropLast_concat, hbefore]
  | some n =>
    have hdir := hnames.dir hpre
    rw [if_pos hdir] at hbefore
    rw [← hpre]
    cases hk : t.get? (base ++ names ++ [k]) with
    | none => exact .inr (.inl ⟨hdir, rfl, FileTree.createDir_join hbefore hdir hk⟩)
    | some n' =>
      obtain rfl : n' = .dir :=
        hclear (names ++ [k]) (List.prefix_refl _) n' (by rw [← List.append_assoc, hk])
      refine .inr (.inr ⟨rfl, ?_⟩)
      rw [FileTree.createDir, FileTree.entry_join k hbefore hdir]
      simp only [hk]

end

def chain (above : List (Comp κ)) : List κ → List κ → List (List (Comp κ))
  | _, [] => []
  | pre, k :: post => (above ++ (pre ++ [k]).map .name) :: chain above (pre ++ [k]) post

/-- Where a caller can be that makes the directories of the names below a directory. -/
inductive Goes (above : List (Comp κ)) (base names : List κ) (t : FileTree κ) :
    MakeDirs κ → Prop where
  | climb (pre post : List κ) : names = pre ++ post →
      Goes above base names t (.climb (above ++ pre.map Comp.name).reverse (chain above pre post))
  | climbed (pre post : List κ) (e : Errno) : names = pre ++ post →
      t.get? (base ++ pre) = some .dir →
      Goes above base names t
        (.climbed (above ++ pre.map Comp.name).reverse (chain above pre post) e)
  | descend (pre post : List κ) : names = pre ++ post → t.get? (base ++ pre) = some .dir →
      Goes above base names t (.descend (chain above pre post))
  | descended (pre post : List κ) (e : Errno) : names = pre ++ post →
      t.get? (base ++ pre) = some .dir →
      Goes above base names t (.descended (above ++ pre.map .name) (chain above pre post) e)
  | done : t.get? (base ++ names) = some .dir → Goes above base names t (.done (.ok ()))

section

variable {t t' : FileTree κ} {above : List (Comp κ)} {base names : List κ} {c : MakeDirs κ}

theorem goes_start (t : FileTree κ) (above : List (Comp κ)) (base names : List κ) :
    Goes above base names t (start (above ++ names.map .name)) :=
  .climb names [] (List.append_nil _).symm

/-- What others make does not lead a caller astray. -/
theorem Goes.mono (h : Goes above base names t c)
    (hsub : ∀ l n, t.get? l = some n → t'.get? l = some n) : Goes above base names t' c := by
  cases h with
  | climb pre post hnames => exact .climb pre post hnames
  | climbed pre post e hnames hdir => exact .climbed pre post e hnames (hsub _ _ hdir)
  | descend pre post hnames hdir => exact .descend pre post hnames (hsub _ _ hdir)
  | descended pre post e hnames hdir => exact .descended pre post e hnames (hsub _ _ hdir)
  | done hdir => exact .done (hsub _ _ hdir)

def MadeOne (base names : List κ) (t t' : FileTree κ) : Prop :=
  t' = t ∨ ∃ pre k, pre ++ [k] <+: names ∧ t.get? (base ++ pre) = some .dir ∧
    t.get? (base ++ pre ++ [k]) = none ∧ t' = t.insert (base ++ pre) k .dir

theorem insert_dir_node {dir : List κ} {k : κ} (hdir : t.get? dir = some .dir)
    (hnew : t.get? (dir ++ [k]) = none) :
    (t.insert dir k .dir).get? (dir ++ [k]) = some .dir := by
  rw [FileTree.get?_insert hdir hnew, if_pos rfl]

theorem Goes.step (hfound : find t.get? above = .ok base) (hnode : t.get? base = some .dir)
    (hclear : Clear t base names) (h : Goes above base names t c) :
    MadeOne base names t (c.step t).1 ∧ Goes above base names (c.step t).1 (c.step t).2 := by
  cases h with
  | climb pre post hnames =>
    subst hnames
    rcases List.eq_nil_or_concat pre with rfl | ⟨pre, k, rfl⟩
    · -- the directory below which the names are is there
      have hthere : t.isDir above = true :=
        FileTree.isDir_iff.mpr ⟨base, hfound, hnode⟩
      have hbase : t.get? (base ++ []) = some .dir := by rw [List.append_nil, hnode]
      rw [List.map_nil, List.append_nil]
      cases hrev : above.reverse with
      | nil => exact ⟨.inl rfl, .descend [] post rfl hbase⟩
      | cons comp rest =>
        have habove : (comp :: rest).reverse = above := by rw [← hrev, List.reverse_reverse]
        obtain ⟨e, hne, hcall⟩ := FileTree.createDir_there hthere
        have hstep : MakeDirs.step t (.climb (comp :: rest) (chain above [] post)) =
            (t, .climbed (comp :: rest) (chain above [] post) e) := by
          simp only [MakeDirs.step, habove, hcall]
        rw [hstep, ← hrev]
        have hgoes : Goes above base ([] ++ post) t
            (.climbed (above ++ ([] : List κ).map Comp.name).reverse (chain above [] post) e) :=
          .climbed [] post e rfl hbase
        rw [List.map_nil, List.append_nil] at hgoes
        exact ⟨.inl rfl, hgoes⟩
    · rw [List.concat_eq_append] at hclear ⊢
      have hrev : (above ++ (pre ++ [k]).map Comp.name).reverse =
          .name k :: (above ++ pre.map Comp.name).reverse := by simp
      have hpath : (Comp.name k :: (above ++ pre.map Comp.name).reverse).reverse =
          above ++ (pre ++ [k]).map Comp.name := by rw [← hrev, List.reverse_reverse]
      rw [hrev]
      rcases createDir_clear hfound hnode (hclear.sub (List.prefix_append _ _)) with
        ⟨-, hcall⟩ | ⟨hdir, hnew, hcall⟩ | ⟨hdir, hcall⟩
      · simp only [MakeDirs.step, hpath, hcall]
        refine ⟨.inl rfl, ?_⟩
        exact .climb pre (k :: post) (by simp)
      · simp only [MakeDirs.step, hpath, hcall]
        refine ⟨.inr ⟨pre, k, List.prefix_append _ _, hdir, hnew, rfl⟩, ?_⟩
        refine .descend (pre ++ [k]) post rfl ?_
        rw [← List.append_assoc]
        exact insert_dir_node hdir hnew
      · simp only [MakeDirs.step, hpath, hcall]
        refine ⟨.inl rfl, ?_⟩
        rw [← hrev]
        exact .climbed (pre ++ [k]) post .alreadyExists rfl (by rw [← List.append_assoc, hdir])
  | climbed pre post e hnames hdir =>
    subst hnames
    have hthere := isDir_clear hfound hnode (hclear.sub (List.prefix_append _ _)) hdir
    simp only [MakeDirs.step, List.reverse_reverse, hthere, if_true]
    exact ⟨.inl rfl, .descend pre post rfl hdir⟩
  | descend pre post hnames hdir =>
    subst hnames
    cases post with
    | nil =>
      rw [List.append_nil]
      exact ⟨.inl rfl, .done hdir⟩
    | cons k post =>
      have hassoc : pre ++ k :: post = pre ++ [k] ++ post := by simp
      rw [hassoc] at hclear ⊢
      rw [chain]
      rcases createDir_clear hfound hnode (hclear.sub (List.prefix_append _ _)) with
        ⟨hnone, -⟩ | ⟨-, hnew, hcall⟩ | ⟨hthere, hcall⟩
      · rw [hdir] at hnone
        cases hnone
      · simp only [MakeDirs.step, hcall]
        refine ⟨.inr ⟨pre, k, List.prefix_append _ _, hdir, hnew, rfl⟩, ?_⟩
        refine .descend (pre ++ [k]) post rfl ?_
        rw [← List.append_assoc]
        exact insert_dir_node hdir hnew
      · simp only [MakeDirs.step, hcall]
        refine ⟨.inl rfl, .descended (pre ++ [k]) post _ rfl ?_⟩
        rw [← List.append_assoc, hthere]
  | descended pre post e hnames hdir =>
    subst hnames
    have hthere := isDir_clear hfound hnode (hclear.sub (List.prefix_append _ _)) hdir
    simp only [MakeDirs.step, hthere, if_true]
    exact ⟨.inl rfl, .descend pre post rfl hdir⟩
  | done hdir => exact ⟨.inl rfl, .done hdir⟩

end

end MakeDirs

end CvdBench.Foundation

import CvdBench.Manifest.DirWake

/-!
What is left to do in a pass, as a number that every step makes smaller. A wake-up gives
at most 3 back to each of the `n` scanners, and is paid for by the task that signals; a
directory carries the work for everything below it.
-/

set_option autoImplicit false

namespace CvdBench.Manifest

open Foundation Foundation.Text Proto Master

variable (env : ScanEnv) (n : Nat)

def dirWork (dir : Path) : Nat :=
  8 + 3 * n + (14 + 3 * n) * env.fs.size (env.fs.mountPoint ++ dir)

def entryWork (dir : Path) (e : DirEntry) : Nat :=
  match e.2 with
  | .file => 4
  | .dir => 6 + dirWork env n (dir ++ [e.1])
  | .symlink | .other => 1

def entriesWork (dir : Path) (es : List DirEntry) : Nat := (es.map (entryWork env n dir)).sum

def lineWork (line : List Char) : Nat :=
  match dirLine line with
  | .dir rel => 6 + dirWork env n rel
  | .skip | .invalid _ => 1

def linesWork (rest : List (List Char)) : Nat := (rest.map (lineWork env n)).sum

def Scanner.work : Scanner → Nat
  | .finished _ | .parked => 0
  | .await false => 1
  | .popLock => 2
  | .popTop => 3
  | .top | .await true => 4
  | .countDir => 5
  | .finishWake _ => 6 + 3 * n
  | .finishDir _ => 7 + 3 * n
  | .entries dir rest => 8 + 3 * n + entriesWork env n dir rest
  | .countFile dir rest => 9 + 3 * n + entriesWork env n dir rest
  | .pushFileHeld dir rest _ => 10 + 3 * n + entriesWork env n dir rest
  | .pushFile dir rest _ => 11 + 3 * n + entriesWork env n dir rest
  | .pushDirNotify dir rest => 12 + 3 * n + entriesWork env n dir rest
  | .pushDir dir rest sub => 13 + 3 * n + entriesWork env n dir rest + dirWork env n sub
  | .scan dir => dirWork env n dir

def DirReader.work : DirReader → Nat
  | .finished _ => 0
  | .wake | .closeWake => 1 + 3 * n
  | .markDone | .close => 2 + 3 * n
  | .lines _ rest => 3 + 3 * n + linesWork env n rest
  | .opening => 4 + 3 * n + linesWork env n (Text.lines env.content.toList)
  | .notify _ rest => 7 + 3 * n + linesWork env n rest
  | .push _ dir rest => 8 + 3 * n + linesWork env n rest + dirWork env n dir

def joinWork (k : Nat) : Nat := 2 + (n - k) * (4 + 3 * n)

def PassMain.work : PassMain → Nat
  | .returned _ => 0
  | .addElapsed _ => 1
  | .join k _ => joinWork n k
  | .closeWake k _ => joinWork n k + 1 + 3 * n
  | .close k _ => joinWork n k + 2 + 3 * n
  | .setCancel k _ => joinWork n (k + 1) + 3 + 3 * n
  | .joinReader => joinWork n 0 + 3 + 3 * n

def DirWorkQueue.work (q : DirWorkQueue) : Nat :=
  (q.dirs.map (dirWork env n)).sum + if q.permit then 3 else 0

def DirPass.work (p : DirPass) : Nat :=
  p.main.work n + p.reader.work env n + p.queue.work env n +
    Pool.total (Scanner.work env n) p.scanners

/-- What a signal can give back to the scanners. -/
def Signal.cost : Signal → Nat
  | .silent => 0
  | .one => 3
  | .all => 3 * n

variable {cancel : Bool}

@[simp] theorem entriesWork_cons (dir : Path) (e : DirEntry) (es : List DirEntry) :
    entriesWork env n dir (e :: es) = entryWork env n dir e + entriesWork env n dir es := by
  simp [entriesWork]

@[simp] theorem linesWork_cons (line : List Char) (rest : List (List Char)) :
    linesWork env n (line :: rest) = lineWork env n line + linesWork env n rest := by
  simp [linesWork]

theorem entryWork_le (dir : Path) (e : DirEntry) :
    entryWork env n dir e ≤
      (14 + 3 * n) * entrySize env.fs.size (env.fs.mountPoint ++ dir) e := by
  obtain ⟨name, ft⟩ := e
  cases ft with
  | dir =>
    simp only [entryWork, dirWork, entrySize, if_true, Nat.mul_add, Nat.mul_one,
      List.append_assoc]
    omega
  | file | symlink | other =>
    simp only [entryWork, entrySize, reduceCtorEq, if_false]
    omega

theorem entriesWork_le (dir : Path) (es : List DirEntry) :
    entriesWork env n dir es ≤
      (14 + 3 * n) * listingSize env.fs.size (env.fs.mountPoint ++ dir) es := by
  induction es with
  | nil => simp [entriesWork]
  | cons e es ih =>
    have he := entryWork_le env n dir e
    simp only [listingSize] at ih
    simp only [entriesWork_cons, listingSize, List.map_cons, List.sum_cons, Nat.mul_add]
    omega

theorem entriesWork_lt {dir : Path} {es : List DirEntry}
    (h : env.fs.readDir (env.fs.mountPoint ++ dir) = some es) :
    8 + 3 * n + entriesWork env n dir es < dirWork env n dir := by
  have hle := entriesWork_le env n dir es
  have hlt := Nat.mul_le_mul_left (14 + 3 * n) (env.fs.finite _ es h)
  simp only [Nat.mul_succ] at hlt
  unfold dirWork
  omega

theorem wakeUp_work (s : Scanner) : (DirPass.wakeUp s).work env n ≤ s.work env n + 3 := by
  cases s with
  | await b => cases b <;> simp [DirPass.wakeUp, Scanner.work]
  | _ => simp [DirPass.wakeUp, Scanner.work]

theorem total_wakeUp (scanners : List Scanner) :
    Pool.total (Scanner.work env n) (scanners.map DirPass.wakeUp) ≤
      Pool.total (Scanner.work env n) scanners + 3 * scanners.length := by
  induction scanners with
  | nil => simp
  | cons s scanners ih =>
    have hs := wakeUp_work env n s
    simp only [List.map_cons, Pool.total_cons, List.length_cons]
    omega

theorem notifyWaiters_work {p : DirPass} (hlen : p.scanners.length = n) :
    p.notifyWaiters.work env n ≤ p.work env n + 3 * n := by
  have htotal := total_wakeUp env n p.scanners
  rw [hlen] at htotal
  simp only [DirPass.work, DirPass.notifyWaiters]
  omega

theorem notifyOne_work {p p' : DirPass} {pick : Nat} (h : p.notifyOne pick = some p') :
    p'.work env n ≤ p.work env n + 3 := by
  unfold DirPass.notifyOne at h
  split at h
  · split at h
    · next hpick =>
      cases h
      have htotal := Pool.total_set (Scanner.work env n) .popTop hpick
      simp only [Scanner.work] at htotal
      simp only [DirPass.work]
      omega
    · cases h
  · cases h
    simp only [DirPass.work, DirWorkQueue.work, if_true]
    omega

theorem signal_work {p p' : DirPass} {pick : Nat} {sig : Signal} (hlen : p.scanners.length = n)
    (h : p.signal pick sig = some p') : p'.work env n ≤ p.work env n + sig.cost n := by
  cases sig with
  | silent =>
    cases h
    exact Nat.le_refl _
  | one => exact notifyOne_work env n h
  | all =>
    cases h
    exact notifyWaiters_work env n hlen

theorem DirReader.Move.work {q q' : DirWorkQueue} {fault : Option String} {r r' : DirReader}
    {sig : Signal} (h : DirReader.Move env cancel q fault r r' q' sig) :
    r'.work env n + q'.work env n + sig.cost n < r.work env n + q.work env n := by
  cases h with
  | linesSkip k line rest _ hline | linesInvalid k line rest e _ hline
  | linesDir k line rest rel _ hline =>
    simp only [DirReader.work, Signal.cost, linesWork_cons, lineWork, hline]
    omega
  | push k dir rest =>
    simp only [DirReader.work, DirWorkQueue.work, Signal.cost, List.map_append, List.map_cons,
      List.map_nil, List.sum_append, List.sum_cons, List.sum_nil]
    omega
  | _ =>
    simp only [DirReader.work, DirWorkQueue.work, Signal.cost]
    omega

theorem Scanner.Move.work {q q' : DirWorkQueue} {act : ScannerAct} {s s' : Scanner}
    {sig : Signal} {c : CellStep} (h : Scanner.Move env cancel q act s s' q' sig c) :
    s'.work env n + q'.work env n + sig.cost n < s.work env n + q.work env n := by
  cases h with
  | popDir dir dirs _ hdirs =>
    simp only [Scanner.work, DirWorkQueue.work, Signal.cost, hdirs, List.map_cons, List.sum_cons]
    omega
  | awaitPermit b hpermit =>
    cases b <;> simp [Scanner.work, DirWorkQueue.work, Signal.cost, hpermit] <;> omega
  | scanCancel dir | scanFail dir =>
    simp only [Scanner.work, Signal.cost, dirWork]
    omega
  | scan dir es _ hes =>
    have hlt := entriesWork_lt env n hes
    simp only [Scanner.work, Signal.cost]
    omega
  | entrySkip dir e rest _ hfile hdir =>
    have he : 1 ≤ entryWork env n dir e := by
      unfold entryWork
      split <;> omega
    simp only [Scanner.work, Signal.cost, entriesWork_cons]
    omega
  | entryFile dir name rest file | entryDir dir name rest =>
    simp only [Scanner.work, Signal.cost, entriesWork_cons, entryWork]
    omega
  | dirPush dir rest sub =>
    simp only [Scanner.work, DirWorkQueue.work, Signal.cost, List.map_append, List.map_cons,
      List.map_nil, List.sum_append, List.sum_cons, List.sum_nil]
    omega
  | finish res | finishWake res =>
    cases res <;> simp only [Scanner.afterDir, Scanner.work, DirWorkQueue.work, Signal.cost] <;>
      omega
  | _ =>
    simp only [Scanner.work, DirWorkQueue.work, Signal.cost]
    omega

theorem joinWork_succ {k : Nat} (hk : k < n) : joinWork n (k + 1) + 4 + 3 * n = joinWork n k := by
  have hsub : n - k = n - (k + 1) + 1 := by omega
  simp only [joinWork]
  rw [hsub, Nat.add_mul (n - (k + 1)) 1]
  omega

theorem DirPass.MainMove.work {p p' : DirPass} {c : CellStep} (hlen : p.scanners.length = n)
    (h : p.MainMove p' c) : p'.work env n < p.work env n := by
  have hlt : ∀ {k : Nat} {s : Scanner}, p.scanners[k]? = some s → k < n := by
    intro k s hk
    rw [← hlen]
    exact (List.getElem?_eq_some_iff.mp hk).1
  cases h with
  | close k err hmain =>
    have hqueue : p.queue.close.work env n = p.queue.work env n := rfl
    simp only [DirPass.work, hmain, PassMain.work, hqueue]
    omega
  | closeWake k err hmain =>
    have hwake := notifyWaiters_work env n (p := { p with main := .join k (some err) }) hlen
    simp only [DirPass.work, PassMain.work] at hwake
    simp only [DirPass.work, hmain, PassMain.work]
    omega
  | joinedAll k firstErr hmain =>
    simp only [DirPass.work, hmain, PassMain.work, joinWork]
    omega
  | joinedOk k firstErr hmain hk | joinedFailed k firstErr err hmain hk =>
    have hsucc := joinWork_succ n (hlt hk)
    simp only [DirPass.work, hmain, PassMain.work]
    omega
  | readerOk hmain | readerFailed err hmain | setCancel k err hmain
  | addElapsed firstErr ms hmain =>
    simp only [DirPass.work, hmain, PassMain.work]
    omega

theorem DirPass.Move.work {p p' : DirPass} {act : PassAct} {c : CellStep}
    (hlen : p.scanners.length = n) (h : p.Move env cancel act p' c) :
    p'.work env n < p.work env n := by
  cases h with
  | reader _ hr hmove hsig =>
    have hsignal := signal_work env n (by simpa using hlen) hsig
    have hwork := hmove.work env n
    simp only [DirPass.work] at hsignal
    simp only [DirPass.work, hr]
    omega
  | @scanner i act pick s s' q sig c p' hi hmove hsig =>
    have hsignal := signal_work env n (by simpa using hlen) hsig
    have hwork := hmove.work env n
    have htotal := Pool.total_set (Scanner.work env n) s' hi
    simp only [DirPass.work] at hsignal
    simp only [DirPass.work]
    omega
  | main hmove => exact hmove.work env n hlen

end CvdBench.Manifest

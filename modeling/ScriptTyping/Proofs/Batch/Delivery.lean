import ScriptTyping.Proofs.Batch.Schedule

set_option autoImplicit false

namespace ScriptTyping

namespace FileSystem

variable {files after : FileSystem} {place location : Location}
  {writes : List (Location × ByteArray)}

theorem taken_overwrite (free : files.isDirectoryAt location = false) (bytes : ByteArray) :
    Taken (files.overwrite location bytes) location := by
  have held := at?_overwrite_self files location bytes
  split at held
  next => exact taken_of_at? free held (by simp)
  next => exact taken_of_at? free held (by simp)

theorem write_again {before now : FileSystem} {path : Path} {bytes : ByteArray}
    {next : FileSystem} (written : before.write path bytes = .ok next)
    (keeps : Keeps next now)
    (granted : ∀ location, before.locate path = .ok location →
      before.volume.refuses .write location = false)
    (stays : ∀ location, Taken next location → Taken now location) :
    ∃ again, now.write path bytes = .ok again ∧ again.locations = now.locations := by
  obtain ⟨location, leads, free, -, rfl⟩ := write_ok.mp written
  have taken := stays location (taken_overwrite free bytes)
  have all := (keeps_overwrite free bytes).trans keeps
  have access : now.openAccess location = .write := by simp [openAccess, taken.2]
  obtain ⟨entry, found⟩ := Option.isSome_iff_exists.mp taken.2
  exact ⟨_, write_ok.mpr ⟨location, locate_keeps all leads, taken.1,
    by rw [access, all.volume, granted location leads], rfl⟩,
    locations_overwrite (mem_locations.mpr ⟨entry, mem_of_at? found⟩) _⟩

theorem Stored.again {again : FileSystem} (stored : Stored files writes after)
    (first : after.volume = files.volume) (second : again.volume = after.volume)
    (once : after.locations.Nodup) (restored : Stored after writes again)
    (order : again.locations = after.locations) : again = after := by
  refine eq_of_at? once second order fun location => ?_
  by_cases special : after.at? location = some .special
  next => rw [restored.special location special, special]
  next =>
    cases last : lastWrite files.volume writes location with
    | some bytes =>
        have ordinary : files.at? location ≠ some .special :=
          fun found => special (stored.special location found)
        rw [restored.last location bytes special (first ▸ last), stored.last location bytes ordinary last]
    | none =>
        rcases restored.kept location (first ▸ last) with same | ⟨empty, directory⟩
        next => exact same
        next =>
          have new := mem_locations.mpr ⟨_, mem_of_at? directory⟩
          exact absurd (order ▸ new) (at?_eq_none.mp empty)

end FileSystem

namespace Batch

open FileSystem

variable {grammar : Grammar} {scope : Scope} {files now next after : FileSystem} {home : Location}
  {job : Job} {jobs : List Job} {progress : Progress} {writes more : List (Location × ByteArray)}
  {cut : List Location}

def deliverAll (scope : Scope) : List Job → FileSystem → Except FileFault FileSystem
  | [], files => .ok files
  | job :: rest, files => (job.deliver scope files).bind (deliverAll scope rest)

theorem deliverAll_cons {rest : List Job} :
    deliverAll scope (job :: rest) files = .ok after ↔
      ∃ next, job.deliver scope files = .ok next ∧ deliverAll scope rest next = .ok after := by
  simp only [deliverAll]
  cases job.deliver scope files <;> simp [Except.bind]

def Named (jobs : List Job) : Prop :=
  ∀ job ∈ jobs, (∀ name ∈ job.names, IsName name) ∧ job.names ≠ []

theorem Named.tail {rest : List Job} (named : Named (job :: rest)) : Named rest :=
  fun other member => named other (List.mem_cons_of_mem _ member)

theorem deliverAll_reaches (site : Site files scope.root home scope.settings.outRoot)
    (named : Named jobs) (delivers : deliverAll scope jobs files = .ok after) :
    Reaches (home ++ [scope.settings.outRoot]) files (jobs.flatMap (·.writes scope home)) after := by
  induction jobs generalizing files with
  | nil =>
      obtain rfl := Except.ok.inj delivers
      exact .start
  | cons job rest ih =>
      obtain ⟨next, first, others⟩ := deliverAll_cons.mp delivers
      obtain ⟨each, some⟩ := named job (by simp)
      have here := deliver_reaches site each some first
      exact here.trans (ih (site.reaches here) named.tail others)

theorem deliver_again (site : Site files scope.root home scope.settings.outRoot)
    (granted : files.volume.Rewritable (home ++ [scope.settings.outRoot]))
    (named : ∀ name ∈ job.names, IsName name) (some : job.names ≠ [])
    (delivers : job.deliver scope files = .ok next)
    (later : Reaches (home ++ [scope.settings.outRoot]) next writes now) :
    ∃ again, job.deliver scope now = .ok again ∧ again.locations = now.locations := by
  cases success : job.conversion.success with
  | false => exact ⟨now, deliver_failed _ _ success, rfl⟩
  | true =>
      obtain ⟨prepared, written, made, output, traced⟩ := (deliver_ok success).mp delivers
      rw [output_parent] at made
      have namedAbove : ∀ name ∈ job.names.dropLast, IsName name :=
        fun name member => named name (List.dropLast_subset _ member)
      obtain ⟨first, directory⟩ := site.makeDirectories_reaches namedAbove made
      have prepares := site.reaches first
      have second := prepares.write_reaches (named_outputNames named some)
        (by simp [Job.outputNames]) output
      have writes := prepares.reaches second
      have grantedPrepared := first.keeps.volume ▸ granted
      have grantedWritten := second.keeps.volume ▸ grantedPrepared
      -- What follows the first write, in the first run and after it.
      have onward : ∃ more, Reaches (home ++ [scope.settings.outRoot]) written more now := by
        split at traced
        next =>
          exact ⟨_, (writes.write_reaches (named_traceNames named some)
            (by simp [Job.traceNames]) traced).trans later⟩
        next =>
          obtain rfl := Except.ok.inj traced
          exact ⟨_, later⟩
      obtain ⟨more, onward⟩ := onward
      have stands : now.look (job.output scope).parent = .ok (Option.some .directory) := by
        obtain ⟨above, leads, here⟩ := look_directory.mp directory
        have keeps := (second.trans onward).keeps
        rw [output_parent]
        exact look_directory.mpr ⟨above, locate_keeps keeps leads, keeps.directory above here⟩
      have made' := makeDirectories_of_directory stands
      obtain ⟨reached, output', order⟩ := write_again output onward.keeps
        (prepares.granted_below grantedPrepared (named_outputNames named some))
        fun _ taken => onward.taken taken
      split at traced
      next traces =>
        have rewrites := (writes.reaches onward).write_reaches (named_outputNames named some)
          (by simp [Job.outputNames]) output'
        have onwardTrace := later.trans rewrites
        obtain ⟨last, traced', order'⟩ := write_again traced onwardTrace.keeps
          (writes.granted_below grantedWritten (named_traceNames named some))
          fun _ taken => onwardTrace.taken taken
        refine ⟨last, (deliver_ok success).mpr ⟨now, reached, made', output', ?_⟩,
          order'.trans order⟩
        simpa [traces] using traced'
      next silent =>
        exact ⟨reached, (deliver_ok success).mpr ⟨now, reached, made', output',
          by simp [silent]⟩, order⟩

theorem deliverAll_ordered (site : Site files scope.root home scope.settings.outRoot)
    (granted : files.volume.Rewritable (home ++ [scope.settings.outRoot]))
    (named : Named jobs) (delivers : deliverAll scope jobs files = .ok after)
    (later : Reaches (home ++ [scope.settings.outRoot]) after writes now) :
    ∃ again, deliverAll scope jobs now = .ok again ∧ again.locations = now.locations := by
  induction jobs generalizing files now writes with
  | nil => exact ⟨now, rfl, rfl⟩
  | cons job rest ih =>
      obtain ⟨next, first, others⟩ := deliverAll_cons.mp delivers
      obtain ⟨each, some⟩ := named job (by simp)
      have reaches := deliver_reaches site each some first
      have here := site.reaches reaches
      have rest_reaches := deliverAll_reaches here named.tail others
      obtain ⟨between, redone, order⟩ := deliver_again site granted each some first
        (rest_reaches.trans later)
      have stands := (here.reaches (rest_reaches.trans later))
      obtain ⟨again, all, order'⟩ := ih here (reaches.keeps.volume ▸ granted) named.tail others
        (later.trans (deliver_reaches stands each some redone))
      exact ⟨again, deliverAll_cons.mpr ⟨between, redone, all⟩, order'.trans order⟩

-- Where jobs have been done, doing them again changes nothing, even if one of them writes over what
-- another has written.
theorem deliverAll_again (site : Site files scope.root home scope.settings.outRoot)
    (granted : files.volume.Rewritable (home ++ [scope.settings.outRoot]))
    (named : Named jobs) (delivers : deliverAll scope jobs files = .ok after) :
    deliverAll scope jobs after = .ok after := by
  obtain ⟨again, redone, order⟩ := deliverAll_ordered site granted named delivers .start
  have first := deliverAll_reaches site named delivers
  have stands := site.reaches first
  have second := deliverAll_reaches stands named redone
  rw [redone, (site.stored first).again first.keeps.volume second.keeps.volume stands.rooted.once
    (stands.stored second) order]

theorem deliver_without (site : Site files scope.root home scope.settings.outRoot)
    (foreign : Foreign files home scope.settings.outRoot cut)
    (named : ∀ name ∈ job.names, IsName name) (some : job.names ≠ []) :
    job.deliver scope (files.without cut) = (job.deliver scope files).map (·.without cut) := by
  have namedAbove : ∀ name ∈ job.names.dropLast, IsName name :=
    fun name member => named name (List.dropLast_subset _ member)
  unfold Job.deliver
  split
  next =>
    simp only [bind, Except.bind, pure, Except.pure, output_parent, makeDirectories,
      site.makeDirectoriesUpTo_without foreign _ namedAbove]
    cases made : files.makeDirectoriesUpTo _ (scope.root.below
        (scope.settings.outRoot :: job.names.dropLast)) with
    | error fault => rfl
    | ok prepared =>
        obtain ⟨first, -⟩ := site.makeDirectoriesUpTo_reaches _ namedAbove made
        have prepares := site.reaches first
        have foreignPrepared := foreign.reaches first
        have output := prepares.write_without foreignPrepared (named_outputNames named some) job.code
        simp only [Except.map, Job.output] at output ⊢
        rw [output]
        cases written : prepared.write (scope.root.below
            (scope.settings.outRoot :: job.outputNames)) job.code with
        | error fault => rfl
        | ok reached =>
            have second := prepares.write_reaches (named_outputNames named some)
              (by simp [Job.outputNames]) written
            simp only
            split
            next =>
              exact (prepares.reaches second).write_without (foreignPrepared.reaches second)
                (named_traceNames named some) job.traceText
            next => rfl
  next => rfl

theorem deliverAll_without (site : Site files scope.root home scope.settings.outRoot)
    (foreign : Foreign files home scope.settings.outRoot cut) (named : Named jobs) :
    deliverAll scope jobs (files.without cut) =
      (deliverAll scope jobs files).map (·.without cut) := by
  induction jobs generalizing files with
  | nil => rfl
  | cons job rest ih =>
      obtain ⟨each, some⟩ := named job (by simp)
      simp only [deliverAll, deliver_without site foreign each some]
      cases delivers : job.deliver scope files with
      | error fault => rfl
      | ok next =>
          have reaches := deliver_reaches site each some delivers
          exact ih (site.reaches reaches) (foreign.reaches reaches) named.tail

theorem deliverAll_filter {keep : Job → Bool}
    (failed : ∀ job ∈ jobs, keep job = false → job.conversion.success = false) :
    deliverAll scope (jobs.filter keep) files = deliverAll scope jobs files := by
  induction jobs generalizing files with
  | nil => rfl
  | cons job rest ih =>
      have onward (files : FileSystem) :
          deliverAll scope (rest.filter keep) files = deliverAll scope rest files :=
        ih fun other member => failed other (List.mem_cons_of_mem _ member)
      cases kept : keep job with
      | true =>
          simp only [List.filter_cons, kept, if_true, deliverAll]
          congr 1
          funext next
          exact onward next
      | false =>
          have idle := deliver_failed scope files (failed job (by simp) kept)
          simp only [List.filter_cons, kept, Bool.false_eq_true, if_false, deliverAll, idle,
            Except.bind]
          exact onward files

end Batch

end ScriptTyping

import PlZero.Proofs.Assembly.RoundTrip
import PlZero.Proofs.Command.Sessions
import PlZero.Proofs.Compilation.Correctness
import PlZero.Suite.Document

namespace PlZero

namespace Command

variable {source : List UInt8} {code : Array Instruction}

-- What is listed is read back as the same program, so that it runs the same way.
theorem report_assembly_listing (h : (compile (Text.Utf8.decode source)).1 = .ok code) (trace : Bool)
    (out : Writer) :
    report .assembly trace (Text.Utf8.encode (disassemble code)).toList out = report .run trace source out := by
  have hback : assemble (Text.Utf8.decode (Text.Utf8.encode (disassemble code)).toList) = .ok code := by
    rw [Text.Utf8.decode_encode, assemble_disassemble, compile_canonical h]
  rw [report_assembly hback, report_run h]

theorem reportListing_cases (code : Array Instruction) (out : Writer) :
    (∃ out', out.write (disassemble code) = (.ok (), out') ∧ reportListing code out = ⟨0, out', [], none⟩) ∨
      ∃ out' stderr e, out.write (disassemble code) = (.error e, out') ∧
        reportListing code out = ⟨1, out', stderr, none⟩ := by
  unfold reportListing
  rcases hwrite : out.write (disassemble code) with ⟨e | ⟨⟩, out'⟩
  · exact .inr ⟨out', _, e, rfl, rfl⟩
  · exact .inl ⟨out', rfl, rfl⟩

-- What a session has added to its output.
def Delivered (o : Options) (stdout : Writer) (ended : Outcome × Files.Disk) (bytes : List UInt8) : Prop :=
  if o.output = "" then ended.1.stdout.bytes = stdout.bytes ++ bytes
  else ended.2.read o.output = .ok bytes

section

variable {d : Files.Disk} {o : Options} {stdout : Writer}

theorem channel_bytes {out : Writer} (h : o.channel? d stdout = some out) :
    out.bytes = if o.output = "" then stdout.bytes else [] := by
  unfold Options.channel? at h
  split at h
  · next hplain =>
      cases h
      rw [if_pos hplain]
  · next hnamed =>
      obtain ⟨place, _, rfl⟩ := Option.map_eq_some_iff.mp h
      rw [if_neg hnamed, Files.Disk.bytes_writer]

theorem delivered_iff {out out' : Writer} (h : o.channel? d stdout = some out) {d' : Files.Disk}
    (houtputs : o.Outputs d out'.bytes d') {bytes : List UInt8} (hbytes : out'.bytes = out.bytes ++ bytes)
    (status : Nat) (stderr other : List UInt8) :
    Delivered o stdout (⟨status, if o.output = "" then out' else stdout, stderr⟩, d') other ↔
      other = bytes := by
  rw [channel_bytes h] at hbytes
  cases houtputs with
  | stdout plain =>
      rw [if_pos plain] at hbytes
      simp [Delivered, plain, hbytes, eq_comm]
  | file named path written =>
      rw [if_neg named, List.nil_append] at hbytes
      simp [Delivered, named, written.read path, hbytes, eq_comm]

-- With a mode in which the source is compiled first, an error of the compiler is all there is to say.
theorem workIn_error {e : CompileError} (he : (compile (Text.Utf8.decode source)).1 = .error e)
    (hmode : o.mode = .listing ∨ o.mode = .run) {out : Writer} (h : o.channel? d stdout = some out) :
    (workIn d o source stdout).1 = ⟨1, stdout, remark "analyse error" (e.diagnose source)⟩ ∧
      Delivered o stdout (workIn d o source stdout) [] := by
  obtain ⟨d', houtputs, hwork⟩ := workIn_of_channel h (report_error he hmode o.trace _)
  rw [hwork, keepIn_of_running rfl]
  refine ⟨?_, (delivered_iff h houtputs (by simp) _ _ []).mpr rfl⟩
  by_cases hplain : o.output = ""
  · rw [Options.channel?, if_pos hplain, Option.some.injEq] at h
    simp [hplain, h]
  · simp [hplain]

theorem of_listing_success (hmode : o.mode = .listing)
    (hstatus : (workIn d o source stdout).1.status = 0) :
    ∃ code, (compile (Text.Utf8.decode source)).1 = .ok code ∧
      ∀ other, Delivered o stdout (workIn d o source stdout) other ↔
        other = (Text.Utf8.encode (disassemble code)).toList := by
  cases h : o.channel? d stdout with
  | none =>
      obtain ⟨stderr, hwork⟩ := workIn_of_no_channel h source
      rw [hwork] at hstatus
      cases hstatus
  | some out =>
      cases hcompile : (compile (Text.Utf8.decode source)).1 with
      | error e =>
          rw [(workIn_error hcompile (.inl hmode) h).1] at hstatus
          cases hstatus
      | ok code =>
          obtain ⟨d', houtputs, hwork⟩ := workIn_of_channel h rfl
          rw [hmode, report_listing hcompile] at houtputs hwork
          refine ⟨code, rfl, ?_⟩
          obtain ⟨out', hwrite, hreport⟩ | ⟨out', stderr, e, _, hreport⟩ := reportListing_cases code out
          · rw [hwork]
            rw [hreport] at houtputs ⊢
            rw [keepIn_of_running rfl]
            exact delivered_iff h houtputs (Writer.bytes_of_write hwrite) _ _
          · rw [hwork, hreport] at hstatus
            cases hstatus

theorem listing_success (hmode : o.mode = .listing)
    (hcompile : (compile (Text.Utf8.decode source)).1 = .ok code) {out : Writer}
    (h : o.channel? d stdout = some out) (hworks : ∀ text, (out.write text).1 = .ok ()) :
    (workIn d o source stdout).1.status = 0 := by
  obtain ⟨d', _, hwork⟩ := workIn_of_channel h rfl
  rw [hwork, hmode, report_listing hcompile]
  obtain ⟨out', _, hreport⟩ | ⟨out', stderr, e, hwrite, _⟩ := reportListing_cases code out
  · rw [hreport]
  · have hok := hworks (disassemble code)
    rw [hwrite] at hok
    cases hok

end

theorem listing_keeps_runs (decode : Suite.Decoder) {d d' : Files.Disk} {listArgs runArgs : List String}
    {l r : Options} {source : List UInt8} (hlist : Options.parse listArgs = .ok l)
    (hlisting : l.mode = .listing) (hread : d.read l.input = .ok source)
    (hrun : Options.parse runArgs = .ok r) (hrunning : r.mode = .run) (hread' : d'.read r.input = .ok source)
    (stdout stdout' : Writer) :
    let listed := sessionIn decode d listArgs stdout
    let ran := sessionIn decode d' runArgs stdout'
    (listed.1.status = 0 →
      ∃ bytes, (∀ other, Delivered l stdout listed other ↔ other = bytes) ∧
        ∀ args a, Options.parse args = .ok a → a.mode = .assembly → d'.read a.input = .ok bytes →
          a.trace = r.trace → a.output = r.output → a.snapshot = r.snapshot →
          sessionIn decode d' args stdout' = ran) ∧
    (listed.1.status ≠ 0 → ∀ out out', l.channel? d stdout = some out →
      (∀ text, (out.write text).1 = .ok ()) → r.channel? d' stdout' = some out' →
      ran.1 = ⟨1, stdout', listed.1.stderr⟩ ∧ Delivered r stdout' ran []) := by
  intro listed ran
  have hlisted : listed = workIn d l source stdout :=
    sessionIn_of_read hlist (by simp [hlisting]) hread stdout
  have hran : ran = workIn d' r source stdout' :=
    sessionIn_of_read hrun (by simp [hrunning]) hread' stdout'
  rw [hlisted, hran]
  constructor
  · intro hstatus
    obtain ⟨code, hcompile, hdelivered⟩ := of_listing_success hlisting hstatus
    refine ⟨_, hdelivered, ?_⟩
    intro args a hargs hassembly hsource htrace houtput hsnapshot
    rw [sessionIn_of_read hargs (by simp [hassembly]) hsource]
    refine workIn_congr houtput hsnapshot (fun out => ?_) d' stdout'
    rw [hassembly, hrunning, htrace]
    exact report_assembly_listing hcompile r.trace out
  · intro hstatus out out' hout hworks hout'
    cases hcompile : (compile (Text.Utf8.decode source)).1 with
    | ok code => exact absurd (listing_success hlisting hcompile hout hworks) hstatus
    | error e =>
        rw [(workIn_error hcompile (.inl hlisting) hout).1]
        exact workIn_error hcompile (.inr hrunning) hout'

-- A source that runs into a fault, its listing, and a source that is no program.
def shelf : Files.Disk where
  root := .directory
    [("p.pl0".toList, .file (Text.Utf8.encode (String.ofList sampleText)).toList),
      ("p.s".toList, .file (Text.Utf8.encode (disassemble Program.sample.code.toArray)).toList),
      ("q.pl0".toList, .file [])]

theorem listing_keeps_runs_shelf :
    let session := sessionIn Suite.ofYaml shelf
    (session ["-l", "p.pl0"] {}).1.status = 0 ∧
    session ["-a", "-x", "-s", "core", "p.s"] {} = session ["-r", "-x", "-s", "core", "p.pl0"] {} ∧
    (session ["-l", "q.pl0"] {}).1.status ≠ 0 ∧
    (session ["-x", "q.pl0"] {}).1 = ⟨1, {}, (session ["-l", "q.pl0"] {}).1.stderr⟩ := by
  intro session
  have hlist : Options.parse ["-l", "p.pl0"] = .ok ⟨.listing, false, "", "", 0, "p.pl0"⟩ := by decide
  have hlist' : Options.parse ["-l", "q.pl0"] = .ok ⟨.listing, false, "", "", 0, "q.pl0"⟩ := by decide
  have hrun : Options.parse ["-r", "-x", "-s", "core", "p.pl0"] =
      .ok ⟨.run, true, "", "core", 0, "p.pl0"⟩ := by decide
  have hrun' : Options.parse ["-x", "q.pl0"] = .ok ⟨.run, true, "", "", 0, "q.pl0"⟩ := by decide
  have hargs : Options.parse ["-a", "-x", "-s", "core", "p.s"] =
      .ok ⟨.assembly, true, "", "core", 0, "p.s"⟩ := by decide
  have hread : shelf.read "p.pl0" = .ok (Text.Utf8.encode (String.ofList sampleText)).toList := rfl
  have hread' : shelf.read "q.pl0" = .ok [] := rfl
  have hcompile : (compile (Text.Utf8.decode (Text.Utf8.encode (String.ofList sampleText)).toList)).1 =
      .ok Program.sample.code.toArray := by
    rw [Text.Utf8.decode_encode, String.toList_ofList]
    exact compile_of_program lex_sampleText Program.lawful_sample
  have hsession : session ["-l", "p.pl0"] {} = workIn shelf ⟨.listing, false, "", "", 0, "p.pl0"⟩ _ {} :=
    sessionIn_of_read hlist (by decide) hread {}
  have hstatus : (session ["-l", "p.pl0"] {}).1.status = 0 := by
    rw [hsession]
    exact listing_success rfl hcompile rfl fun _ => rfl
  have hstatus' : (session ["-l", "q.pl0"] {}).1.status ≠ 0 := by decide +kernel
  refine ⟨hstatus, ?_, hstatus', ?_⟩
  · obtain ⟨bytes, hdelivered, hsame⟩ :=
      (listing_keeps_runs Suite.ofYaml hlist rfl hread hrun rfl hread {} {}).1 hstatus
    obtain ⟨code, hcode, hlisted⟩ := of_listing_success rfl (hsession ▸ hstatus)
    cases hcompile.symm.trans hcode
    rw [← hsession] at hlisted
    obtain rfl := (hdelivered _).mp ((hlisted _).mpr rfl)
    exact hsame _ _ hargs rfl rfl rfl rfl rfl
  · exact ((listing_keeps_runs Suite.ofYaml hlist' rfl hread' hrun' rfl hread' {} {}).2 hstatus' _ _ rfl
      (fun _ => rfl) rfl).1

end Command

end PlZero

import Mathlib.Logic.Basic

/-!
# Configuration sections

The sections of the YAML configuration that the collectors and the exporters read
(`src/internal/config`).  A PID is a Go `int` and is never computed with, so it
is an `Int` here; the verbosity and the off-CPU parameters are unsigned and keep
their widths, because they are written into control records byte by byte.
-/

namespace Kmon.Ports.Config

/-- `config.ExporterConfig`: an exporter a batch is sent to, and the database. -/
structure ExporterConfig where
  Name : String
  Database : String
  deriving DecidableEq, Repr

/-- `config.ExportConfig`. -/
structure ExportConfig where
  Period : Int
  DataName : String
  ExporterConfig : List ExporterConfig
  deriving DecidableEq, Repr

/-- `config.ListenConfig`: the PIDs listed by number and the expressions that
containers are matched against. -/
structure ListenConfig where
  PIDGroup : List Int
  K8sGroup : List String
  deriving DecidableEq, Repr

/-- The zero value `config.ListenConfig{}`. -/
def ListenConfig.zero : ListenConfig := ⟨[], []⟩

/-- `config.ColFcount`. -/
structure ColFcount where
  Name : String
  Function : String
  CountReturn : Bool
  ListenConfig : ListenConfig
  ExportConfig : ExportConfig
  deriving DecidableEq, Repr

/-- `config.ColTcpreq`. -/
structure ColTcpreq where
  Name : String
  Verbose : BitVec 32
  ListenConfig : ListenConfig
  ExportConfig : ExportConfig
  deriving DecidableEq, Repr

/-- `config.ColBiostat`. -/
structure ColBiostat where
  Name : String
  Verbose : BitVec 32
  BinScale : BitVec 64
  ListenConfig : ListenConfig
  ExportConfig : ExportConfig
  deriving DecidableEq, Repr

/-- `config.ColTcpdrop`. -/
structure ColTcpdrop where
  Name : String
  Verbose : BitVec 32
  ListenConfig : ListenConfig
  ExportConfig : ExportConfig
  deriving DecidableEq, Repr

/-- `config.ColOffcpu`. -/
structure ColOffcpu where
  Name : String
  Verbose : BitVec 32
  State : BitVec 32
  TimeStart : BitVec 32
  TimeEnd : BitVec 32
  ListenConfig : ListenConfig
  ExportConfig : ExportConfig
  deriving DecidableEq, Repr

/-- `config.ExpInfluxDB`. -/
structure ExpInfluxDB where
  Name : String
  Host : String
  UserName : String
  Password : String
  deriving DecidableEq, Repr

/-- `config.ExpElasticsearch`. -/
structure ExpElasticsearch where
  Name : String
  Host : String
  UserName : String
  Password : String
  deriving DecidableEq, Repr

/-- `config.Exporter`: the sections of all exporters. -/
structure Exporter where
  InfluxDB : List ExpInfluxDB
  Elasticsearch : List ExpElasticsearch
  deriving DecidableEq, Repr

/-- `config.Collector`: the sections of all collectors. -/
structure Collector where
  Fcount : List ColFcount
  Tcpreq : List ColTcpreq
  Biostat : List ColBiostat
  Tcpdrop : List ColTcpdrop
  Offcpu : List ColOffcpu
  deriving DecidableEq, Repr

end Kmon.Ports.Config

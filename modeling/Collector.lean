import Collector.Cgroups
import Collector.ChunkScanner
import Collector.Collectd.Requests
import Collector.Collectd.Routing
import Collector.ConfigConverter.ConfigServer
import Collector.ConfigConverter.DiscoveryAdds
import Collector.ConfigConverter.K8sTagger
import Collector.ConfigConverter.Malformed
import Collector.ConfigConverter.Migration
import Collector.ConfigConverter.NormalizeGcp
import Collector.ConfigSource.Calls
import Collector.ConfigSource.Escape
import Collector.ConfigSource.Expand
import Collector.ConfigSource.Invocation
import Collector.ConfigSource.Kind
import Collector.ConfigSource.SettingsSplit
import Collector.ConfigSource.Wrapped
import Collector.Cpu
import Collector.Databricks.Runs
import Collector.Discovery.BestStatus
import Collector.Discovery.Bundle
import Collector.Discovery.DiscoveryConfig
import Collector.Discovery.EntryPaths
import Collector.Discovery.EnvVarRoundTrip
import Collector.Discovery.LoadConf
import Collector.Discovery.PropertySplit
import Collector.Discovery.Receivers
import Collector.DiscoveryReceiver.Agreement
import Collector.DiscoveryReceiver.DynamicNames
import Collector.DiscoveryReceiver.EvaluatorPanics
import Collector.DiscoveryReceiver.FirstOnly
import Collector.Docker.Containers
import Collector.Elasticsearch.Datapoints
import Collector.Expvar.SplitString
import Collector.Filter.Meaning
import Collector.Filter.MonitorFiltering
import Collector.Instrumentation.Injected
import Collector.Intervals
import Collector.Kubernetes.Caches
import Collector.Kubernetes.ClusterState
import Collector.Kubernetes.Events
import Collector.Kubernetes.ServiceTags
import Collector.Kubernetes.WorkloadProperties
import Collector.MigrateCheckpoint.Migration
import Collector.RemoteWrite.Bounds
import Collector.RemoteWrite.Shutdown
import Collector.SQL.Rows
import Collector.ScriptedInputs.Quiet
import Collector.StatsD.Lines
import Collector.Subproc.Configure
import Collector.Subproc.Handler
import Collector.Subproc.Runner
import Collector.Subproc.Writers
import Collector.VSphere.Samples

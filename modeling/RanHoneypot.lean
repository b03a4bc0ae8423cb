import RanHoneypot.Alert.BanSafety
import RanHoneypot.Alert.BatchBounds
import RanHoneypot.Alert.MappedSources
import RanHoneypot.Alert.OffenderReverts
import RanHoneypot.Alert.ProbeRuns
import RanHoneypot.Alert.RepeatLadder
import RanHoneypot.Alert.ScanLaw
import RanHoneypot.Alert.ShunAccounting
import RanHoneypot.Alert.Shutdown
import RanHoneypot.Builder.EnvRoundTrip
import RanHoneypot.Builder.Share
import RanHoneypot.Config.ListenConflicts
import RanHoneypot.Fingerprint.Pick
import RanHoneypot.Trap.AuthDelay
import RanHoneypot.Trap.HelloConn
import RanHoneypot.Trap.HttpPathEncoding
import RanHoneypot.Trap.Ipp
import RanHoneypot.Trap.KexSniff
import RanHoneypot.Trap.Ldap
import RanHoneypot.Trap.ListenerClose
import RanHoneypot.Trap.Mongo
import RanHoneypot.Trap.MongoSasl
import RanHoneypot.Trap.Mqtt
import RanHoneypot.Trap.Mssql
import RanHoneypot.Trap.MysqlSession
import RanHoneypot.Trap.Oracle
import RanHoneypot.Trap.Pjl
import RanHoneypot.Trap.ProxyClose
import RanHoneypot.Trap.ProxyHeaderV1
import RanHoneypot.Trap.ProxyHeaderV2
import RanHoneypot.Trap.RateLimit
import RanHoneypot.Trap.Redact
import RanHoneypot.Trap.Redis
import RanHoneypot.Trap.SessionAlerts
import RanHoneypot.Trap.TcpStop
import RanHoneypot.Trap.TlsFingerprint
import RanHoneypot.Trap.UrlSecrets

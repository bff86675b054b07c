import Leelo.Collector.Delivery
import Leelo.Collector.Journal
import Leelo.Collector.Reconcile
import Leelo.Collector.Restart
import Leelo.Collector.Snapshot
import Leelo.Daemon.Accounting
import Leelo.Daemon.Limiter
import Leelo.Engine.Accounting
import Leelo.Engine.Domains
import Leelo.Engine.Gates
import Leelo.Engine.Safety
import Leelo.Luks.Preflight
import Leelo.Luks.Repair
import Leelo.Net.Entries
import Leelo.Policy.Agreement
import Leelo.Policy.Certificate
import Leelo.Policy.Secrecy
import Leelo.Sss.Kernel
import Leelo.Tpm.Protection
import Leelo.Tpm.Unlock
import Leelo.Cli.Unlock
